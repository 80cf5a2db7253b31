import ScopedStyles.Proofs.Selector.Cursor.Tracking
import ScopedStyles.Proofs.Selector.Grammar

namespace ScopedStyles.Selector.Cursor

variable {α : Type} {text : String} {cs : List Char}

theorem closeComment?_cases (cs : List Char) :
    offset? ['*', '/'] cs = none ∧ closeComment? cs = none ∨
      ∃ l rest, cs = l ++ '*' :: '/' :: rest ∧
        offset? ['*', '/'] cs = some (String.ofList l).utf8ByteSize ∧ closeComment? cs = some rest := by
  fun_induction closeComment? cs with
  | case1 rest =>
    refine .inr ⟨[], rest, rfl, ?_, rfl⟩
    rw [offset?, if_pos (by simp)]
    rfl
  | case2 c rest hne ih =>
    have hnot : ¬ ['*', '/'].isPrefixOf (c :: rest) = true := by
      rw [List.isPrefixOf_iff_prefix]
      rintro ⟨k, hk⟩
      obtain ⟨rfl, rfl⟩ := List.cons.inj hk
      exact hne k rfl rfl
    rw [offset?, if_neg hnot]
    obtain ⟨hoffset, hclose⟩ | ⟨l, k, rfl, hoffset, hclose⟩ := ih
    · rw [hoffset, hclose]
      exact .inl ⟨rfl, rfl⟩
    · refine .inr ⟨c :: l, k, rfl, ?_, hclose⟩
      rw [hoffset, utf8ByteSize_cons]
      rfl
  | case3 => exact .inl ⟨rfl, rfl⟩

/-- The comment's body begins two bytes behind the cursor, where the text is sliced to search it. -/
theorem Tracks.body {body : List Char} {k : List Char → Walk α}
    {r : Except Failure (α × List Char)} (h : Tracks text (k body) ('/' :: '*' :: body) r) :
    Tracks text (do let c ← get; let rest ← slice text (c.pos + 2); k rest) ('/' :: '*' :: body) r := by
  apply tracks_of_suffix
  intro hcs
  apply Tracks.get
  intro c hpos
  have happend : ['/', '*'] ++ body <:+ text.toList := hcs
  have hsize : (String.ofList ['/', '*']).utf8ByteSize = 2 := rfl
  have hwhole : ['/', '*'] ++ body = '/' :: '*' :: body := rfl
  have hbody := position_append happend
  rw [hwhole, hsize] at hbody
  rw [hpos, ← hbody]
  exact (tracks_slice ((List.suffix_append ['/', '*'] body).trans happend)).then h

theorem tracks_skipAll {rounds : Nat} (hrounds : cs.length < rounds) :
    Tracks text (skipAll text rounds) cs ((Selector.skipTrivia cs).map ((), ·)) := by
  induction rounds generalizing cs with
  | zero => exact absurd hrounds (Nat.not_lt_zero _)
  | succ rounds ih =>
  rw [skipAll]
  apply tracks_of_suffix
  intro hcs
  apply tracks_peek.then
  fun_cases Selector.skipTrivia cs with
  | case1 => exact tracks_pure ()
  | case2 body rest hclose =>
    dsimp only [List.head?_cons]
    rw [if_neg (by decide), if_pos rfl]
    apply tracks_peekSecond.then
    apply Tracks.body
    obtain ⟨-, hnone⟩ | ⟨l, k, rfl, hoffset, hsome⟩ := closeComment?_cases body
    · rw [hclose] at hnone
      cases hnone
    · cases hclose.symm.trans hsome
      have happend : (['/', '*'] ++ l ++ ['*', '/']) ++ rest <:+ text.toList := by
        simpa using hcs
      have hsize : (String.ofList (['/', '*'] ++ l ++ ['*', '/'])).utf8ByteSize =
          2 + (String.ofList l).utf8ByteSize + 2 := by
        rw [utf8ByteSize_append_list, utf8ByteSize_append_list]
        rfl
      have hposition := position_append happend
      have hwhole : ['/', '*'] ++ l ++ ['*', '/'] ++ rest = '/' :: '*' :: (l ++ '*' :: '/' :: rest) := by
        simp
      have hrest : rest.length < rounds := by
        simp only [List.length_cons, List.length_append] at hrounds
        omega
      rw [hoffset]
      apply Tracks.get
      intro c hpos
      rw [hpos, ← hwhole, ← hsize, ← hposition]
      exact (tracks_moveTo ((List.suffix_append _ rest).trans happend)).then (ih hrest)
  | case3 body hclose =>
    dsimp only [List.head?_cons]
    rw [if_neg (by decide), if_pos rfl]
    apply tracks_peekSecond.then
    apply Tracks.body
    obtain ⟨hoffset, -⟩ | ⟨l, k, -, -, hsome⟩ := closeComment?_cases body
    · rw [hoffset]
      exact tracks_fail .unclosedComment
    · rw [hclose] at hsome
      cases hsome
  | case4 c rest hne hblank =>
    dsimp only [List.head?_cons]
    rw [if_pos hblank]
    exact tracks_bump.then (ih (Nat.lt_of_succ_lt_succ hrounds))
  | case5 c rest hne hblank =>
    dsimp only [List.head?_cons]
    rw [if_neg hblank]
    split
    · next hslash =>
      apply tracks_peekSecond.then
      split
      · next hstar =>
        obtain ⟨body, rfl⟩ : ∃ body, rest = '*' :: body := by
          cases rest with
          | nil => cases hstar
          | cons d body =>
            cases hstar
            exact ⟨body, rfl⟩
        exact (hne body hslash rfl).elim
      · exact tracks_pure ()
    · exact tracks_pure ()

theorem suffix_of_skipTrivia {rest : List Char} (h : Selector.skipTrivia cs = .ok rest) :
    rest <:+ cs := by
  have hwithin := skipTrivia_within cs
  rw [h] at hwithin
  exact hwithin

theorem position_bne {rest : List Char} (hrest : rest <:+ cs) (hcs : cs <:+ text.toList) :
    (position text rest != position text cs) = (rest.length != cs.length) := by
  obtain ⟨l, rfl⟩ := hrest
  rw [position_append hcs, Bool.eq_iff_iff, bne_iff_ne, bne_iff_ne, List.length_append]
  cases l with
  | nil => simp
  | cons d l =>
    have hpos := Char.utf8Size_pos d
    rw [utf8ByteSize_cons, List.length_cons]
    omega

theorem tracks_skipTrivia :
    Tracks text (skipTrivia text) cs
      ((Selector.skipTrivia cs).map fun rest => (rest.length != cs.length, rest)) := by
  apply tracks_of_suffix
  intro hcs
  apply Tracks.get
  intro c hpos
  have hresult : (Selector.skipTrivia cs).map (fun rest => (rest.length != cs.length, rest)) =
      (Selector.skipTrivia cs).map ((), ·) >>= fun r => .ok (r.2.length != cs.length, r.2) := by
    cases Selector.skipTrivia cs with
    | ok rest => rfl
    | error f => rfl
  rw [hresult]
  apply Tracks.rounds
  intro rounds hrounds
  apply (tracks_skipAll hrounds).bind
  intro a rest hok
  obtain ⟨rest', hskip, heq⟩ := map_eq_ok_iff.1 hok
  cases heq
  apply Tracks.get
  intro c' hpos'
  rw [hpos, hpos', position_bne (suffix_of_skipTrivia hskip) hcs]
  exact tracks_pure _

/-- White space and comments are skipped, and whether there were some shows in the position. -/
theorem Tracks.trivia {k : Bool → Walk α} {k' : List Char → Except Failure (α × List Char)}
    (h : ∀ rest, Selector.skipTrivia cs = .ok rest →
      Tracks text (k (rest.length != cs.length)) rest (k' rest)) :
    Tracks text (skipTrivia text >>= k) cs (Selector.skipTrivia cs >>= k') := by
  have hresult : Selector.skipTrivia cs >>= k' =
      (Selector.skipTrivia cs).map (fun rest => (rest.length != cs.length, rest)) >>=
        fun r => k' r.2 := by
    cases Selector.skipTrivia cs with
    | ok rest => rfl
    | error f => rfl
  rw [hresult]
  apply tracks_skipTrivia.bind
  intro a rest hok
  obtain ⟨rest', hskip, heq⟩ := map_eq_ok_iff.1 hok
  cases heq
  exact h rest hskip

theorem tracks_skipName {rounds : Nat} (hrounds : cs.length < rounds) :
    Tracks text (skipName text rounds) cs (.ok ((), (takeName cs).2)) := by
  induction rounds generalizing cs with
  | zero => exact absurd hrounds (Nat.not_lt_zero _)
  | succ rounds ih =>
  rw [skipName]
  apply tracks_peek.then
  fun_cases takeName cs with
  | case1 c rest =>
    dsimp only [List.head?_cons]
    rw [if_pos rfl]
    apply tracks_bump.then
    exact tracks_bump.then (ih (Nat.lt_of_succ_lt (Nat.lt_of_succ_lt_succ hrounds)))
  | case2 c rest hne hc =>
    have hrest : rest.length < rounds := Nat.lt_of_succ_lt_succ hrounds
    dsimp only [List.head?_cons]
    by_cases hslash : c = '\\'
    · rw [if_pos hslash]
      cases rest with
      | nil =>
        apply tracks_bump.then
        exact tracks_bump.then (ih hrest)
      | cons d rest => exact (hne d rest hslash rfl).elim
    · rw [if_neg hslash, if_pos hc]
      exact tracks_bump.then (ih hrest)
  | case3 c rest hne hc =>
    dsimp only [List.head?_cons]
    rw [if_neg, if_neg hc]
    · exact tracks_pure ()
    · rintro rfl
      exact hc rfl
  | case4 => exact tracks_pure ()

theorem tracks_readRun :
    Tracks text (readRun text) cs (.ok (String.ofList (takeName cs).1, (takeName cs).2)) := by
  apply tracks_of_suffix
  intro hcs
  have hsplit := takeName_append cs
  rw [← hsplit] at hcs
  apply Tracks.get
  intro c hpos
  apply Tracks.rounds
  intro rounds hrounds
  apply (tracks_skipName (hsplit ▸ hrounds)).then
  apply Tracks.get
  intro c' hpos'
  have hbetween : Tracks text _ (takeName cs).2 _ := tracks_between hcs
  rw [hsplit] at hbetween
  rw [hpos, hpos']
  exact hbetween

theorem tracks_readName (what : Expected) :
    Tracks text (readName text what) cs (Selector.readName what cs) := by
  apply tracks_readRun.then
  rw [Selector.readName]
  obtain ⟨name, rest⟩ := takeName cs
  cases name with
  | nil => exact tracks_fail _
  | cons c name =>
    have hname : (String.ofList (c :: name)).isEmpty = false := by simp
    dsimp only
    rw [hname]
    exact tracks_pure _

theorem tracks_skipQuoted (quote : Char) {rounds : Nat} (hrounds : cs.length < rounds) :
    Tracks text (skipQuoted text (some quote) rounds) cs
      (.ok ((takeQuoted quote cs).isSome, ((takeQuoted quote cs).map Prod.snd).getD [])) := by
  induction rounds generalizing cs with
  | zero => exact absurd hrounds (Nat.not_lt_zero _)
  | succ rounds ih =>
  rw [skipQuoted]
  apply tracks_bump.then
  fun_cases takeQuoted quote cs with
  | case1 c rest =>
    dsimp only [List.head?_cons]
    rw [if_pos rfl, Option.isSome_map, Option.map_map]
    exact tracks_bump.then (ih (Nat.lt_of_succ_lt (Nat.lt_of_succ_lt_succ hrounds)))
  | case2 =>
    dsimp only [List.head?_cons]
    rw [if_pos rfl]
    exact tracks_bump.then (ih (Nat.lt_of_succ_lt_succ hrounds))
  | case3 rest hne hne' =>
    have hslash : quote ≠ '\\' := by
      rintro rfl
      cases rest with
      | nil => exact hne' rfl rfl
      | cons d rest => exact hne d rest rfl rfl
    dsimp only [List.head?_cons]
    rw [if_neg hslash, if_pos rfl]
    exact tracks_pure true
  | case4 c rest hne hne' hc =>
    have hslash : c ≠ '\\' := by
      rintro rfl
      cases rest with
      | nil => exact hne' rfl rfl
      | cons d rest => exact hne d rest rfl rfl
    dsimp only [List.head?_cons]
    rw [if_neg hslash, if_neg (mt Option.some.inj hc), Option.isSome_map, Option.map_map]
    exact ih (Nat.lt_of_succ_lt_succ hrounds)
  | case5 => exact tracks_pure false

/-- An unclosed string is reported where it begins, not where the cursor is by then. -/
theorem tracks_readString (quote : Char) (body : List Char) :
    Tracks text (readString text) (quote :: body) (Selector.readString quote body) := by
  apply tracks_of_suffix
  intro hbody
  apply Tracks.get
  intro c hpos
  apply tracks_bump.then
  apply Tracks.rounds
  intro rounds hrounds
  apply (tracks_skipQuoted quote hrounds).then
  rw [Selector.readString, hpos, List.tail_cons]
  cases htake : takeQuoted quote body with
  | none => exact tracks_throw .unclosedString hbody
  | some r =>
    obtain ⟨inner, rest⟩ := r
    obtain ⟨rfl, -⟩ := takeQuoted_eq_some_iff.1 htake
    have hbetween : ∀ ds, Tracks text (between text (position text (quote :: inner ++ rest))
        (position text rest)) ds (.ok (String.ofList (quote :: inner), ds)) :=
      fun ds => tracks_between hbody
    apply Tracks.get
    intro c' hpos'
    rw [hpos']
    exact hbetween rest

theorem tracks_atBar : Tracks text (atBar text) cs (.ok ((afterBar? cs).isSome, cs)) := by
  apply tracks_peek.then
  split
  · next hbar =>
    obtain ⟨rest, rfl⟩ := List.head?_eq_some_iff.1 hbar
    apply tracks_peekSecond.then
    have hsome : (afterBar? ('|' :: rest)).isSome =
        (rest.head? != some '=' && rest.head? != some '|') := by
      rw [Bool.eq_iff_iff, Option.isSome_iff_ne_none, ne_eq, afterBar?_bar_eq_none_iff, not_or,
        Bool.and_eq_true, bne_iff_ne, bne_iff_ne]
    rw [hsome, List.head?_eq_getElem?]
    exact tracks_pure _
  · next hbar =>
    rw [afterBar?_of_head hbar]
    exact tracks_pure false

theorem Tracks.bar {x y : Walk α} {r : Except Failure (α × List Char)}
    (hbar : ∀ rest, afterBar? cs = some rest → Tracks text x rest r)
    (hnone : afterBar? cs = none → Tracks text y cs r) :
    Tracks text (do if ← atBar text then let _ ← bump text; x else y) cs r := by
  apply tracks_atBar.then
  cases hafter : afterBar? cs with
  | none => exact hnone hafter
  | some rest =>
    obtain ⟨rfl, -⟩ := afterBar?_eq_some_iff.1 hafter
    exact tracks_bump.then (hbar rest hafter)

theorem tracks_readElement (ns : Namespace) :
    Tracks text (readElement text ns) cs (Selector.readElement ns cs) := by
  apply tracks_peek.then
  rw [Selector.readElement.eq_def]
  split
  · next hstar =>
    obtain ⟨rest, rfl⟩ := List.head?_eq_some_iff.1 hstar
    exact tracks_bump.then (tracks_pure _)
  · next hstar =>
    split
    · exact (hstar rfl).elim
    · exact (tracks_readName _).bind fun _ _ _ => tracks_pure _

theorem tracks_readPlainName :
    Tracks text (readPlainName text) cs (do
      let (first, rest) ← Selector.readName .attributeName cs
      match afterBar? rest with
      | some rest =>
        let (name, rest) ← Selector.readName .attributeName rest
        .ok ((some (.named first), name), rest)
      | none => .ok ((none, first), rest)) := by
  apply (tracks_readName _).bind
  intro first rest _
  apply Tracks.bar
  · intro rest' hafter
    dsimp only
    rw [hafter]
    exact (tracks_readName _).bind fun _ _ _ => tracks_pure _
  · intro hafter
    dsimp only
    rw [hafter]
    exact tracks_pure _

theorem exists_of_peeks {c d : Char} (hfirst : cs.head? = some c) (hsecond : cs[1]? = some d) :
    ∃ rest, cs = c :: d :: rest := by
  obtain ⟨rest, rfl⟩ := List.head?_eq_some_iff.1 hfirst
  obtain ⟨rest, rfl⟩ := List.head?_eq_some_iff.1 (List.head?_eq_getElem?.trans hsecond)
  exact ⟨rest, rfl⟩

theorem tracks_readAttributeName :
    Tracks text (readAttributeName text) cs (Selector.readAttributeName cs) := by
  apply tracks_peek.then
  apply tracks_peekSecond.then
  fun_cases Selector.readAttributeName cs with
  | case1 rest =>
    apply tracks_bump.then
    apply tracks_bump.then
    exact (tracks_readName _).bind fun _ _ _ => tracks_pure _
  | case2 rest => exact tracks_readPlainName
  | case3 rest hne =>
    split
    · next hstar _ => cases hstar
    · next hsecond =>
      obtain ⟨rest, heq⟩ := exists_of_peeks rfl hsecond
      exact (hne rest (List.cons.inj heq).2).elim
    · exact tracks_bump.then ((tracks_readName _).bind fun _ _ _ => tracks_pure _)
    · next hbar _ _ => exact (hbar rfl).elim
  | case4 _ hstar hequals hbar =>
    split
    · next hfirst hsecond =>
      obtain ⟨rest, rfl⟩ := exists_of_peeks hfirst hsecond
      exact (hstar rest rfl).elim
    · exact tracks_readPlainName
    · next hfirst _ =>
      obtain ⟨rest, rfl⟩ := List.head?_eq_some_iff.1 hfirst
      exact (hbar rest rfl).elim
    · exact tracks_readPlainName

theorem tracks_operator? :
    Tracks text (operator? text) cs (.ok ((takeOperator? cs).map Prod.fst, cs)) := by
  apply tracks_peek.then
  apply tracks_peekSecond.then
  fun_cases takeOperator? cs with
  | case7 _ hequals htilde hbar hcaret hdollar hstar =>
    split
    · next hfirst =>
      obtain ⟨rest, rfl⟩ := List.head?_eq_some_iff.1 hfirst
      exact (hequals rest rfl).elim
    · next hfirst hsecond =>
      obtain ⟨rest, rfl⟩ := exists_of_peeks hfirst hsecond
      exact (htilde rest rfl).elim
    · next hfirst hsecond =>
      obtain ⟨rest, rfl⟩ := exists_of_peeks hfirst hsecond
      exact (hbar rest rfl).elim
    · next hfirst hsecond =>
      obtain ⟨rest, rfl⟩ := exists_of_peeks hfirst hsecond
      exact (hcaret rest rfl).elim
    · next hfirst hsecond =>
      obtain ⟨rest, rfl⟩ := exists_of_peeks hfirst hsecond
      exact (hdollar rest rfl).elim
    · next hfirst hsecond =>
      obtain ⟨rest, rfl⟩ := exists_of_peeks hfirst hsecond
      exact (hstar rest rfl).elim
    · exact tracks_pure none
  | _ => exact tracks_pure _

theorem tracks_bumpAll (n : Nat) : Tracks text (bumpAll text n) cs (.ok ((), cs.drop n)) := by
  induction n generalizing cs with
  | zero => exact tracks_pure ()
  | succ n ih =>
    rw [← List.drop_tail]
    exact tracks_bump.then ih

/-- Every character of an operator is one byte long, so that it takes as many moves as bytes. -/
theorem drop_operator {operator : String} {rest : List Char}
    (h : takeOperator? cs = some (operator, rest)) : cs.drop operator.utf8ByteSize = rest := by
  unfold takeOperator? at h
  split at h <;> cases h
  all_goals rfl

section Names

variable {c : Char}

theorem takeName_of_not (hc : ¬ isNameChar c = true) (rest : List Char) :
    takeName (c :: rest) = ([], c :: rest) :=
  takeName_of_ends (endsName_cons (Bool.eq_false_iff.2 hc) rest)

theorem exists_takeName (rest : List Char) (hc : isNameChar c = true) :
    ∃ name r, takeName (c :: rest) = (c :: name, r) := by
  unfold takeName
  split
  · next heq =>
    cases heq
    exact ⟨_, _, rfl⟩
  · next heq =>
    cases heq
    rw [if_pos hc]
    exact ⟨_, _, rfl⟩
  · next heq => cases heq

end Names

theorem tracks_readValue :
    Tracks text (readValue text) cs (Selector.readAttributeValue cs) := by
  apply tracks_peek.then
  rw [Selector.readAttributeValue.eq_def]
  split
  · next c hc =>
    obtain ⟨rest, rfl⟩ := List.head?_eq_some_iff.1 hc
    dsimp only
    split
    · exact tracks_readString c rest
    · split
      · next hname =>
        have hrun : Tracks text (readRun text) (c :: rest) _ := tracks_readRun
        obtain ⟨name, r, htake⟩ := exists_takeName rest hname
        rw [htake] at hrun
        rw [Selector.readName, htake]
        exact hrun
      · next hname =>
        rw [Selector.readName, takeName_of_not hname rest]
        exact tracks_fail _
  · next hc =>
    obtain rfl := List.head?_eq_none_iff.1 hc
    exact tracks_fail _

theorem tracks_readFlag (htight : Tight cs) :
    Tracks text (readFlag text) cs (do
      let rest ← Selector.skipTrivia (takeFlag cs).2
      .ok ((takeFlag cs).1, rest)) := by
  have hnone : takeName cs = ([], cs) → Tracks text (pure none) cs (do
      let rest ← Selector.skipTrivia (takeFlag cs).2
      .ok ((takeFlag cs).1, rest)) := by
    intro htake
    have hflag : takeFlag cs = (none, cs) := by rw [takeFlag, htake]
    rw [hflag, htight]
    exact tracks_pure none
  apply tracks_peek.then
  split
  · next c hc =>
    obtain ⟨rest, rfl⟩ := List.head?_eq_some_iff.1 hc
    split
    · next hname =>
      obtain ⟨name, r, htake⟩ := exists_takeName rest hname
      have hrun : Tracks text (readRun text) (c :: rest) _ := tracks_readRun
      have hflag : takeFlag (c :: rest) = (some (String.ofList (c :: name)), r) := by
        rw [takeFlag, htake]
      rw [htake] at hrun
      rw [hflag]
      apply hrun.then
      apply Tracks.trivia
      intro rest _
      exact tracks_pure _
    · next hname => exact hnone (takeName_of_not hname rest)
  · next hc =>
    obtain rfl := List.head?_eq_none_iff.1 hc
    exact hnone (takeName_of_ends endsName_nil)

theorem tight_of_skipTrivia {rest : List Char} (h : Selector.skipTrivia cs = .ok rest) : Tight rest := by
  obtain ⟨-, -, -, htight⟩ := skipTrivia_eq_ok_iff.1 h
  exact htight

theorem tracks_readMatch : Tracks text (readMatch text) cs (Selector.readMatch cs) := by
  apply tracks_operator?.then
  rw [Selector.readMatch]
  cases htake : takeOperator? cs with
  | none => exact tracks_pure _
  | some r =>
    obtain ⟨operator, rest⟩ := r
    apply (tracks_bumpAll _).then
    rw [drop_operator htake]
    apply Tracks.trivia
    intro rest _
    apply tracks_readValue.bind
    intro value rest _
    apply Tracks.trivia
    intro rest hskip
    have hflag : Tracks text (readFlag text) rest _ := tracks_readFlag (tight_of_skipTrivia hskip)
    have hresult : (do
        let r ← Selector.skipTrivia (takeFlag rest).2
        .ok ((⟨some operator, some value, (takeFlag rest).1⟩ : Match), r)) =
        (do
          let r ← Selector.skipTrivia (takeFlag rest).2
          .ok ((takeFlag rest).1, r)) >>=
          fun r => .ok (⟨some operator, some value, r.1⟩, r.2) := by
      cases Selector.skipTrivia (takeFlag rest).2 with
      | ok r => rfl
      | error f => rfl
    dsimp only
    rw [hresult]
    exact hflag.bind fun _ _ _ => tracks_pure _

/-- A character that has no place in front of the closing bracket is reported behind it. -/
theorem tracks_readAttribute :
    Tracks text (readAttribute text) ('[' :: cs)
      (Selector.readAttribute cs) := by
  apply tracks_bump.then
  apply Tracks.trivia
  intro rest _
  apply tracks_readAttributeName.bind
  intro name rest _
  apply Tracks.trivia
  intro rest _
  apply tracks_readMatch.bind
  intro criterion rest _
  apply tracks_bump.then
  cases rest with
  | nil => exact tracks_fail _
  | cons c rest =>
    dsimp only [List.head?_cons, List.tail_cons]
    split
    · next hc =>
      cases hc
      exact tracks_pure _
    · next d hd hc =>
      cases hc
      split
      · next heq =>
        cases heq
        exact (hd rfl).elim
      · next heq =>
        cases heq
        exact tracks_fail _
      · next heq => cases heq
    · next hc => cases hc

theorem tracks_readPseudoName :
    Tracks text (readPseudoName text) (':' :: cs) (Selector.readPseudoName cs) := by
  apply tracks_bump.then
  apply tracks_peek.then
  rw [Selector.readPseudoName.eq_def]
  split
  · next hcolon =>
    obtain ⟨rest, heq⟩ := List.head?_eq_some_iff.1 hcolon
    obtain rfl : cs = ':' :: rest := heq
    apply tracks_bump.then
    exact (tracks_readName _).bind fun _ _ _ => tracks_pure _
  · next hcolon =>
    split
    · exact (hcolon rfl).elim
    · exact (tracks_readName _).bind fun _ _ _ => tracks_pure _

theorem tracks_readUniversal :
    Tracks text (readUniversal text) ('*' :: cs) (Selector.readUniversal cs) := by
  apply tracks_bump.then
  rw [Selector.readUniversal]
  apply Tracks.bar
  · intro rest hafter
    have hafter' : afterBar? cs = some rest := hafter
    rw [hafter']
    exact tracks_readElement _
  · intro hafter
    have hafter' : afterBar? cs = none := hafter
    rw [hafter']
    exact tracks_pure _

theorem tracks_readTag {c : Char} (hc : isNameChar c = true) :
    Tracks text (readTag text) (c :: cs) (Selector.readTag (c :: cs)) := by
  have hrun : Tracks text (readRun text) (c :: cs) _ := tracks_readRun
  obtain ⟨name, r, htake⟩ := exists_takeName cs hc
  rw [htake] at hrun
  have hresult : Selector.readTag (c :: cs) =
      match afterBar? r with
      | some rest => Selector.readElement (.named (String.ofList (c :: name))) rest
      | none => .ok (.leaf .tag (String.ofList (c :: name)), r) := by
    rw [Selector.readTag, Selector.readName, htake]
    rfl
  rw [hresult]
  apply hrun.then
  apply Tracks.bar
  · intro rest hafter
    have hafter' : afterBar? r = some rest := hafter
    rw [hafter']
    exact tracks_readElement _
  · intro hafter
    have hafter' : afterBar? r = none := hafter
    rw [hafter']
    exact tracks_pure _

theorem tracks_readLeaf (c : Char) (kind : Kind) (what : Expected) :
    Tracks text (readLeaf text kind what) (c :: cs) (do
      let (name, rest) ← Selector.readName what cs
      .ok (.leaf kind name, rest)) :=
  tracks_bump.then ((tracks_readName what).bind fun _ _ _ => tracks_pure _)

theorem tracks_readMark (c : Char) (kind : Kind) (value : String) :
    Tracks text (readMark text kind value) (c :: cs) (.ok (.leaf kind value, cs)) :=
  tracks_bump.then (tracks_pure _)

end ScopedStyles.Selector.Cursor
