import ScopedStyles.Proofs.Selector.Cursor.Components

namespace ScopedStyles.Selector.Cursor

variable {text : String} {cs rest tokens : List Char} {c : Char} {f : Frame}
  {list : Walk (List Tree)}

def leave : List (String × Frame) → List Tree × List Char → Except Failure (List Tree)
  | [], (selectors, _) => .ok selectors
  | (name, frame) :: outer, (selectors, rest) =>
    Selector.readList ⟨frame.push (.functional name selectors), outer⟩ rest.tail

/-- The walk over a node comes to `r`, and so does the stack on its way over the node. -/
structure NodeRead (text : String) (list : Walk (List Tree)) (c : Char) (rest : List Char)
    (r : Except Failure (Tree × List Char)) : Prop where
  tracks : Tracks text (readNode text list c) (c :: rest) r
  stops : ∀ p, r = .ok p → p.2 <:+ rest
  reads : ∀ frame outer,
    (readComponent c rest >>= fun p => Selector.readList (Stack.add ⟨frame, outer⟩ frame p.1) p.2) =
      r >>= fun p => Selector.readList ⟨frame.push p.1, outer⟩ p.2

def AtStop (cs : List Char) : Prop :=
  ∀ c ∈ cs.head?, c = ',' ∨ c = ')'

theorem exists_cons_of_not_atStop (h : ¬ AtStop cs) :
    ∃ c rest, cs = c :: rest ∧ ¬(c = ',' ∨ c = ')') := by
  cases cs with
  | nil => exact (h nofun).elim
  | cons c rest =>
    refine ⟨c, rest, rfl, fun hc => h ?_⟩
    rintro d hd
    cases hd
    exact hc

/-- The walk over the nodes of a selector, however many rounds it is given beyond the characters left. -/
structure SelectorRead (text : String) (list : Walk (List Tree)) (f : Frame) (cs : List Char)
    (r : Except Failure (Frame × List Char)) : Prop where
  tracks : ∀ rounds, cs.length < rounds → Tracks text (readSelector text list rounds f) cs r
  stops : ∀ p, r = .ok p → p.2 <:+ cs ∧ Tight p.2 ∧ AtStop p.2
  reads : ∀ outer,
    Selector.readList ⟨f, outer⟩ cs = r >>= fun p => Selector.readList ⟨p.1, outer⟩ p.2

/-- The walk `x` over the rest of a list, up to the end or the closing parenthesis of its pseudo. -/
structure ListRead (text : String) (x : Walk (List Tree)) (nested : Bool) (f : Frame) (cs : List Char)
    (r : Except Failure (List Tree × List Char)) : Prop where
  tracks : Tracks text x cs r
  stops : ∀ p, r = .ok p → p.2 <:+ cs ∧ p.2.head? = if nested then some ')' else none
  reads : ∀ outer, outer.isEmpty = !nested → Selector.readList ⟨f, outer⟩ cs = r >>= leave outer

def ListsBelow (text : String) (list : Walk (List Tree)) (n : Nat) : Prop :=
  ∀ cs : List Char, cs.length < n → ∃ r, ListRead text list true .empty cs r

theorem ListsBelow.mono {m n : Nat} (h : ListsBelow text list n) (hle : m ≤ n) : ListsBelow text list m :=
  fun cs hcs => h cs (Nat.lt_of_lt_of_le hcs hle)

section Nodes

def ReadsNode (text : String) (cs : List Char) (x : Walk Tree)
    (s : Except Failure (Component × List Char)) : Prop :=
  ∃ r, Tracks text x cs r ∧ s = r.map fun p => (.node p.1, p.2)

theorem ReadsNode.ite {p : Prop} [Decidable p] {x x' : Walk Tree}
    {s s' : Except Failure (Component × List Char)} (h : p → ReadsNode text cs x s)
    (h' : ¬ p → ReadsNode text cs x' s') :
    ReadsNode text cs (if p then x else x') (if p then s else s') := by
  by_cases hp : p
  · rw [if_pos hp, if_pos hp]
    exact h hp
  · rw [if_neg hp, if_neg hp]
    exact h' hp

theorem ReadsNode.node (h : ReadsNode text (c :: rest) (readNode text list c) (readComponent c rest)) :
    ∃ r, NodeRead text list c rest r := by
  obtain ⟨r, htracks, hread⟩ := h
  refine ⟨r, htracks, ?_, ?_⟩
  · intro p hp
    have hwithin := readComponent_within c rest
    rw [hread, hp] at hwithin
    exact hwithin
  · intro frame outer
    rw [hread]
    cases r with
    | ok p => rfl
    | error e => rfl

section Pseudos

variable {name : String}

theorem readNode_colon : readNode text list ':' = readPseudo text list := by
  rw [readNode]
  rfl

theorem readComponent_colon : readComponent ':' rest = Selector.readPseudo rest := rfl

theorem tracks_empty_arguments :
    Tracks text (readArguments text list) (')' :: cs) (.ok ([], ')' :: cs)) := by
  rw [readArguments]
  exact tracks_peek.then (tracks_pure [])

theorem tracks_arguments {r : Except Failure (List Tree × List Char)} (hclose : cs.head? ≠ some ')')
    (h : Tracks text list cs r) : Tracks text (readArguments text list) cs r := by
  rw [readArguments]
  apply tracks_peek.then
  split
  · next heq => exact (hclose heq).elim
  · exact h

theorem tracks_closeArguments (name : String) (selectors : List Tree) (hclose : cs.head? = some ')') :
    Tracks text (closeArguments text name selectors) cs (.ok (.functional name selectors, cs.tail)) := by
  apply tracks_bump.then
  rw [hclose]
  exact tracks_pure _

theorem tracks_functional {r : Except Failure (Tree × List Char)}
    (hname : Tracks text (readPseudoName text) cs (.ok (name, '(' :: rest)))
    (h : Tracks text (do
      let _ ← skipTrivia text
      closeArguments text name (← readArguments text list)) rest r) :
    Tracks text (readPseudo text list) cs r := by
  rw [readPseudo]
  apply hname.then
  apply tracks_peek.then
  exact tracks_bump.then h

theorem readPseudo_functional (h : Selector.readPseudoName cs = .ok (name, '(' :: rest)) :
    Selector.readPseudo cs = Selector.skipTrivia rest >>= fun
      | ')' :: rest => .ok (.node (.functional name []), rest)
      | rest => .ok (.opening name, rest) := by
  rw [Selector.readPseudo, h]
  rfl

theorem readPseudo_opening (h : Selector.readPseudoName cs = .ok (name, '(' :: rest))
    (hskip : Selector.skipTrivia rest = .ok tokens) (hclose : tokens.head? ≠ some ')') :
    Selector.readPseudo cs = .ok (.opening name, tokens) := by
  rw [readPseudo_functional h, hskip]
  dsimp only [bind, Except.bind]
  split
  · exact (hclose rfl).elim
  · rfl

theorem readPseudo_plain (h : Selector.readPseudoName cs = .ok (name, rest))
    (hopen : rest.head? ≠ some '(') :
    Selector.readPseudo cs = .ok (.node (.leaf (.pseudo false) name), rest) := by
  rw [Selector.readPseudo, h]
  dsimp only [bind, Except.bind]
  split
  · exact (hopen rfl).elim
  · rfl

/-- The walk reads the arguments by a call of its own, while the stack opens a frame for them. -/
theorem exists_functional (hlist : ListsBelow text list rest.length)
    (hname : Tracks text (readPseudoName text) (':' :: rest) (.ok (name, '(' :: cs)))
    (hread : Selector.readPseudoName rest = .ok (name, '(' :: cs)) :
    ∃ r, NodeRead text list ':' rest r := by
  have hcs : '(' :: cs <:+ rest := by
    have hwithin := readPseudoName_within rest
    rw [hread] at hwithin
    exact hwithin
  have hskips : Tracks text (skipTrivia text) cs _ := tracks_skipTrivia
  cases hskip : Selector.skipTrivia cs with
  | error e =>
    rw [hskip] at hskips
    apply ReadsNode.node
    rw [readNode_colon, readComponent_colon, readPseudo_functional hread, hskip]
    exact ⟨.error e, tracks_functional hname hskips.stop, rfl⟩
  | ok tokens =>
    rw [hskip] at hskips
    have htokens : tokens <:+ cs := suffix_of_skipTrivia hskip
    by_cases hclose : tokens.head? = some ')'
    · obtain ⟨tokens, rfl⟩ := List.head?_eq_some_iff.1 hclose
      apply ReadsNode.node
      rw [readNode_colon, readComponent_colon, readPseudo_functional hread, hskip]
      refine ⟨.ok (.functional name [], tokens), ?_, rfl⟩
      exact tracks_functional hname
        (hskips.then (tracks_empty_arguments.then (tracks_closeArguments name [] rfl)))
    · have hshorter : tokens.length < rest.length :=
        Nat.lt_of_le_of_lt htokens.length_le hcs.length_le
      obtain ⟨r, hr⟩ := hlist tokens hshorter
      refine ⟨r >>= fun p => .ok (.functional name p.1, p.2.tail), ?_, ?_, ?_⟩
      · rw [readNode_colon]
        apply tracks_functional hname
        apply hskips.then
        apply (tracks_arguments hclose hr.tracks).bind
        intro selectors k hok
        exact tracks_closeArguments name selectors (hr.stops _ hok).2
      · intro p hp
        obtain ⟨q, hq, hok⟩ := bind_eq_ok_iff.1 hp
        cases hok
        have htail : q.2.tail <:+ tokens := (List.tail_suffix q.2).trans (hr.stops q hq).1
        exact htail.trans (htokens.trans ((List.suffix_cons '(' cs).trans hcs))
      · intro frame outer
        rw [readComponent_colon, readPseudo_opening hread hskip hclose]
        change Selector.readList ⟨.empty, (name, frame) :: outer⟩ tokens = _
        rw [hr.reads _ rfl]
        cases r with
        | ok q => rfl
        | error e => rfl

theorem exists_pseudo (hlist : ListsBelow text list rest.length) :
    ∃ r, NodeRead text list ':' rest r := by
  have hname : Tracks text (readPseudoName text) (':' :: rest) _ := tracks_readPseudoName
  cases hread : Selector.readPseudoName rest with
  | error e =>
    rw [hread] at hname
    apply ReadsNode.node
    rw [readNode_colon, readComponent_colon, readPseudo, Selector.readPseudo, hread]
    exact ⟨.error e, hname.stop, rfl⟩
  | ok p =>
    obtain ⟨name, k⟩ := p
    rw [hread] at hname
    by_cases hopen : k.head? = some '('
    · obtain ⟨k, rfl⟩ := List.head?_eq_some_iff.1 hopen
      exact exists_functional hlist hname hread
    · apply ReadsNode.node
      rw [readNode_colon, readComponent_colon, readPseudo, readPseudo_plain hread hopen]
      refine ⟨.ok (.leaf (.pseudo false) name, k), ?_, rfl⟩
      apply hname.then
      apply tracks_peek.then
      split
      · next heq => exact (hopen heq).elim
      · exact tracks_pure _

end Pseudos

theorem readsNode_leaf (kind : Kind) (what : Expected) :
    ReadsNode text (c :: rest) (readLeaf text kind what) (Selector.readLeaf kind what rest) := by
  refine ⟨_, tracks_readLeaf c kind what, ?_⟩
  rw [Selector.readLeaf]
  cases Selector.readName what rest with
  | ok p => rfl
  | error e => rfl

theorem readsNode_string :
    ReadsNode text (c :: rest) (do return .leaf .string (← readString text))
      ((Selector.readString c rest).map fun r => (.node (.leaf .string r.1), r.2)) := by
  refine ⟨Selector.readString c rest >>= fun p => .ok (.leaf .string p.1, p.2), ?_, ?_⟩
  · exact (tracks_readString c rest).bind fun _ _ _ => tracks_pure _
  · cases Selector.readString c rest with
    | ok p => rfl
    | error e => rfl

theorem exists_node (hlist : ListsBelow text list rest.length) : ∃ r, NodeRead text list c rest r := by
  by_cases hcolon : c = ':'
  · subst hcolon
    exact exists_pseudo hlist
  apply ReadsNode.node
  rw [readNode, readComponent]
  apply ReadsNode.ite fun _ => ⟨_, tracks_readMark c .combinator c.toString, rfl⟩
  intro _
  apply ReadsNode.ite fun _ => readsNode_leaf .className .className
  intro _
  apply ReadsNode.ite fun _ => readsNode_leaf .idName .idName
  intro _
  apply ReadsNode.ite
  · rintro rfl
    exact ⟨_, tracks_readAttribute, rfl⟩
  intro _
  apply ReadsNode.ite fun hc => (hcolon hc).elim
  intro _
  apply ReadsNode.ite fun _ => ⟨_, tracks_readMark c .nesting "&", rfl⟩
  intro _
  apply ReadsNode.ite fun _ => readsNode_string
  intro _
  apply ReadsNode.ite
  · rintro rfl
    exact ⟨_, tracks_readUniversal, rfl⟩
  intro _
  apply ReadsNode.ite fun hc => ⟨_, tracks_readTag hc, rfl⟩
  exact fun _ => ⟨_, tracks_fail _, rfl⟩

end Nodes

section Lists

def proceed : Progress → Except Failure (List Tree)
  | .done selectors => .ok selectors
  | .more s rest => Selector.readList s rest

theorem readList_of_skipTrivia {s : Stack} (h : Selector.skipTrivia cs = .ok tokens) :
    Selector.readList s cs = stepToken s (tokens.length != cs.length) tokens >>= proceed := by
  have hstep : step s cs = stepToken s (tokens.length != cs.length) tokens := by rw [step, h]; rfl
  rw [← hstep]
  cases hs : step s cs with
  | error e => exact readList_of_error hs
  | ok p =>
    cases p with
    | done selectors => exact readList_of_done hs
    | more s' rest => exact readList_of_more hs

theorem readList_skip {s : Stack} (h : Selector.skipTrivia cs = .ok tokens) (hstop : AtStop tokens) :
    Selector.readList s cs = Selector.readList s tokens := by
  rw [readList_of_skipTrivia h, readList_of_skipTrivia (tight_of_skipTrivia h)]
  cases tokens with
  | nil => rfl
  | cons c tokens =>
    rcases hstop c rfl with rfl | rfl
    · rfl
    · rfl

theorem stepToken_node {s : Stack} {spaced : Bool} (hc : ¬(c = ',' ∨ c = ')')) :
    stepToken s spaced (c :: rest) =
      readComponent c rest >>= fun p => .ok (.more (s.add (s.frame.separate spaced c) p.1) p.2) := by
  unfold stepToken
  split
  · next heq => cases heq
  · next heq => exact (hc (.inl (List.cons.inj heq).1)).elim
  · next heq => exact (hc (.inr (List.cons.inj heq).1)).elim
  · next heq =>
    cases heq
    rfl

theorem stepToken_empty {s : Stack} {spaced : Bool} (h : s.frame.nodes.isEmpty = true)
    (hstop : AtStop cs) : stepToken s spaced cs = .error ⟨.emptySelector, cs⟩ := by
  cases cs with
  | nil => exact if_pos h
  | cons c cs =>
    rcases hstop c rfl with rfl | rfl
    · exact if_pos h
    · exact if_pos h

section Selectors

variable {r : Except Failure (Tree × List Char)}

theorem tracks_readSelector {rounds : Nat} {r : Except Failure (Frame × List Char)}
    (hrounds : cs.length < rounds) (hskip : Selector.skipTrivia cs = .ok tokens)
    (h : ∀ rounds, cs.length ≤ rounds → Tracks text (do
      match ← peek text with
      | some c =>
        if c = ',' ∨ c = ')' then return f
        else
          let t ← readNode text list c
          readSelector text list rounds ((f.separate (tokens.length != cs.length) c).push t)
      | none => return f) tokens r) :
    Tracks text (readSelector text list rounds f) cs r := by
  have hskips : Tracks text (skipTrivia text) cs _ := tracks_skipTrivia
  rw [hskip] at hskips
  cases rounds with
  | zero => exact absurd hrounds (Nat.not_lt_zero _)
  | succ rounds =>
    rw [readSelector]
    exact hskips.then (h rounds (Nat.le_of_lt_succ hrounds))

theorem selectorRead_of_stop (hskip : Selector.skipTrivia cs = .ok tokens) (hstop : AtStop tokens) :
    SelectorRead text list f cs (.ok (f, tokens)) where
  tracks rounds hrounds := by
    apply tracks_readSelector hrounds hskip
    intro rounds _
    apply tracks_peek.then
    cases tokens with
    | nil => exact tracks_pure f
    | cons c tokens =>
      dsimp only [List.head?_cons]
      rw [if_pos (hstop c rfl)]
      exact tracks_pure f
  stops p hp := by
    cases hp
    exact ⟨suffix_of_skipTrivia hskip, tight_of_skipTrivia hskip, hstop⟩
  reads _ := readList_skip hskip hstop

theorem selectorRead_of_error {e : Failure} (hskip : Selector.skipTrivia cs = .error e) :
    SelectorRead text list f cs (.error e) where
  tracks rounds hrounds := by
    have hskips : Tracks text (skipTrivia text) cs _ := tracks_skipTrivia
    rw [hskip] at hskips
    cases rounds with
    | zero => exact absurd hrounds (Nat.not_lt_zero _)
    | succ rounds =>
      rw [readSelector]
      exact hskips.stop
  stops := nofun
  reads outer := by
    apply readList_of_error
    rw [step, hskip]
    rfl

theorem tracks_node {r' : Except Failure (Frame × List Char)}
    (hskip : Selector.skipTrivia cs = .ok (c :: rest)) (hc : ¬(c = ',' ∨ c = ')'))
    (h : ∀ rounds, cs.length ≤ rounds → Tracks text (do
      let t ← readNode text list c
      readSelector text list rounds ((f.separate ((c :: rest).length != cs.length) c).push t))
        (c :: rest) r') (rounds : Nat) (hrounds : cs.length < rounds) :
    Tracks text (readSelector text list rounds f) cs r' := by
  apply tracks_readSelector hrounds hskip
  intro rounds hle
  apply tracks_peek.then
  dsimp only [List.head?_cons]
  rw [if_neg hc]
  exact h rounds hle

theorem NodeRead.readList (hr : NodeRead text list c rest r)
    (hskip : Selector.skipTrivia cs = .ok (c :: rest)) (hc : ¬(c = ',' ∨ c = ')'))
    (outer : List (String × Frame)) :
    Selector.readList ⟨f, outer⟩ cs = r >>= fun p =>
      Selector.readList ⟨(f.separate ((c :: rest).length != cs.length) c).push p.1, outer⟩ p.2 := by
  rw [readList_of_skipTrivia hskip, stepToken_node hc, ← hr.reads]
  cases readComponent c rest with
  | ok p => rfl
  | error e => rfl

/-- The nodes of a selector are read one after the other, and each takes something off the text. -/
theorem exists_selector (hlist : ListsBelow text list cs.length) (f : Frame) :
    ∃ r, SelectorRead text list f cs r := by
  induction hlength : cs.length using Nat.strongRecOn generalizing cs f with
  | ind n ih =>
  subst hlength
  cases hskip : Selector.skipTrivia cs with
  | error e => exact ⟨.error e, selectorRead_of_error hskip⟩
  | ok tokens =>
    by_cases hstop : AtStop tokens
    · exact ⟨_, selectorRead_of_stop hskip hstop⟩
    obtain ⟨c, rest, rfl, hc⟩ := exists_cons_of_not_atStop hstop
    have hrest : c :: rest <:+ cs := suffix_of_skipTrivia hskip
    obtain ⟨r, hr⟩ := exists_node (c := c) (hlist.mono (Nat.le_of_lt hrest.length_le))
    have hreads := hr.readList (f := f) hskip hc
    cases r with
    | error e =>
      exact ⟨.error e, tracks_node hskip hc fun _ _ => hr.tracks.stop, nofun, hreads⟩
    | ok p =>
      obtain ⟨t, k⟩ := p
      have hk : k <:+ rest := hr.stops _ rfl
      have hshorter : k.length < cs.length := Nat.lt_of_le_of_lt hk.length_le hrest.length_le
      obtain ⟨r', hr'⟩ := ih k.length hshorter (hlist.mono (Nat.le_of_lt hshorter))
        ((f.separate ((c :: rest).length != cs.length) c).push t) rfl
      refine ⟨r', tracks_node hskip hc fun rounds hrounds => ?_, fun p hp => ?_, fun outer => ?_⟩
      · exact hr.tracks.then (hr'.tracks rounds (Nat.lt_of_lt_of_le hshorter hrounds))
      · obtain ⟨hp, htight, hstop⟩ := hr'.stops p hp
        exact ⟨(hp.trans hk).trans ((List.suffix_cons c rest).trans hrest), htight, hstop⟩
      · exact (hreads outer).trans (hr'.reads outer)

end Selectors

theorem listRead_error {x : Walk (List Tree)} {nested : Bool} {e : Failure}
    (h : Tracks text x cs (.error e))
    (hreads : ∀ outer, outer.isEmpty = !nested → Selector.readList ⟨f, outer⟩ cs = .error e) :
    ListRead text x nested f cs (.error e) :=
  ⟨h, nofun, hreads⟩

theorem exists_end {next : Frame → Walk (List Tree)} (nested : Bool) (f : Frame) (htight : Tight cs)
    (hstop : AtStop cs)
    (hnext : ∀ rest, cs = ',' :: rest → ∃ r, ListRead text (next f.next) nested f.next rest r) :
    ∃ r, ListRead text (readEnd text next nested f) nested f cs r := by
  have hreads : ∀ outer, Selector.readList ⟨f, outer⟩ cs =
      stepToken ⟨f, outer⟩ (cs.length != cs.length) cs >>= proceed :=
    fun outer => readList_of_skipTrivia htight
  cases hnodes : f.nodes.isEmpty with
  | true =>
    refine ⟨.error ⟨.emptySelector, cs⟩, listRead_error ?_ ?_⟩
    · rw [readEnd, if_pos hnodes]
      exact tracks_fail _
    · intro outer _
      rw [hreads, stepToken_empty hnodes hstop]
      rfl
  | false =>
    have hne : ¬ f.nodes.isEmpty = true := Bool.eq_false_iff.1 hnodes
    cases cs with
    | nil =>
      cases nested with
      | true =>
        refine ⟨.error ⟨.unclosedParenthesis, []⟩, listRead_error ?_ ?_⟩
        · rw [readEnd, if_neg hne]
          exact tracks_peek.then (tracks_fail _)
        · intro outer houter
          rw [hreads, stepToken, if_neg hne, if_neg (by simp [houter])]
          rfl
      | false =>
        refine ⟨.ok (f.close, []), ?_, ?_, ?_⟩
        · rw [readEnd, if_neg hne]
          exact tracks_peek.then (tracks_pure _)
        · rintro p hp
          cases hp
          exact ⟨List.suffix_rfl, rfl⟩
        · intro outer houter
          obtain rfl := List.isEmpty_iff.1 houter
          rw [hreads, stepToken, if_neg hne]
          rfl
    | cons c rest =>
      rcases hstop c rfl with rfl | rfl
      · obtain ⟨r, hr⟩ := hnext rest rfl
        refine ⟨r, ?_, fun p hp => ?_, fun outer houter => ?_⟩
        · rw [readEnd, if_neg hne]
          exact tracks_peek.then (tracks_bump.then hr.tracks)
        · obtain ⟨hsuffix, hhead⟩ := hr.stops p hp
          exact ⟨hsuffix.trans (List.suffix_cons ',' rest), hhead⟩
        · rw [hreads, stepToken, if_neg hne]
          exact hr.reads outer houter
      · cases nested with
        | true =>
          refine ⟨.ok (f.close, ')' :: rest), ?_, ?_, ?_⟩
          · rw [readEnd, if_neg hne]
            exact tracks_peek.then (tracks_pure _)
          · rintro p hp
            cases hp
            exact ⟨List.suffix_rfl, rfl⟩
          · intro outer houter
            rw [hreads, stepToken, if_neg hne]
            cases outer with
            | nil => cases houter
            | cons opened outer => rfl
        | false =>
          refine ⟨.error ⟨.unexpected ')', ')' :: rest⟩, listRead_error ?_ ?_⟩
          · rw [readEnd, if_neg hne]
            exact tracks_peek.then (tracks_fail _)
          · intro outer houter
            obtain rfl := List.isEmpty_iff.1 houter
            rw [hreads, stepToken, if_neg hne]
            rfl

/-- An argument list inside of a list is shorter, and so is what follows a comma. -/
theorem exists_list {rounds : Nat} (nested : Bool) (f : Frame) (hrounds : cs.length < rounds) :
    ∃ r, ListRead text (readList text rounds nested f) nested f cs r := by
  induction rounds generalizing nested f cs with
  | zero => exact absurd hrounds (Nat.not_lt_zero _)
  | succ rounds ih =>
  -- One round is gone for the lists within and behind; the loop over nodes has rounds of its own.
  have hlength : cs.length ≤ rounds := Nat.le_of_lt_succ hrounds
  have hlist : ListsBelow text (readList text rounds true .empty) cs.length := fun ds hds =>
    ih true .empty (Nat.lt_of_lt_of_le hds hlength)
  obtain ⟨r, hr⟩ := exists_selector hlist f
  cases r with
  | error e =>
    refine ⟨.error e, listRead_error ?_ fun outer _ => hr.reads outer⟩
    rw [readList]
    apply Tracks.rounds
    intro bound hbound
    exact (hr.tracks bound hbound).stop
  | ok p =>
    obtain ⟨g, k⟩ := p
    obtain ⟨hk, htight, hstop⟩ := hr.stops _ rfl
    have hnext : ∀ rest, k = ',' :: rest →
        ∃ r, ListRead text (readList text rounds nested g.next) nested g.next rest r := by
      rintro rest rfl
      exact ih nested g.next (Nat.lt_of_lt_of_le hk.length_le hlength)
    obtain ⟨r, hend⟩ := exists_end nested g htight hstop hnext
    refine ⟨r, ?_, fun p hp => ?_, fun outer houter => ?_⟩
    · rw [readList]
      apply Tracks.rounds
      intro bound hbound
      exact (hr.tracks bound hbound).then hend.tracks
    · exact ⟨(hend.stops p hp).1.trans hk, (hend.stops p hp).2⟩
    · exact (hr.reads outer).trans (hend.reads outer houter)

end Lists

section Whole

theorem boundary_le {p : Nat} (h : Boundary text p) : p ≤ text.utf8ByteSize :=
  h.le_rawEndPos

theorem stands_start (text : String) : Stands text start text.toList := by
  have hstart : position text text.toList = 0 := by
    rw [position, String.ofList_toList, Nat.sub_self]
  refine ⟨List.suffix_rfl, hstart.symm, ?_⟩
  intro p hp
  obtain rfl := List.mem_singleton.1 hp
  rw [← hstart]
  exact boundary_position List.suffix_rfl

/-- On every text the walk ends as reading off its front does, in a tree or an error, within one round more
than the text has characters. It never slices the text off a boundary: it stands at boundaries only,
and at one every error is reported. -/
theorem readAll_outcome (text : String) {rounds : Nat} (hrounds : text.toList.length < rounds) :
    ∃ c, (readAll text).outcome rounds start = ((parse text).mapError Halt.failed, c) ∧
      (∀ p ∈ c.passed, p ≤ text.utf8ByteSize ∧ Boundary text p) ∧
      ∀ e, parse text = .error e → e.position ≤ text.utf8ByteSize ∧ Boundary text e.position := by
  obtain ⟨r, hr⟩ : ∃ r, ListRead text (readList text rounds false .empty) false .empty text.toList r :=
    exists_list false .empty hrounds
  -- The walk calls itself for each open parenthesis, where the reader keeps a stack.
  have hread : Selector.readList .start text.toList = r >>= leave [] := hr.reads [] rfl
  have htracks : Tracks text (do
      let selectors ← readList text rounds false .empty
      match ← peek text with
      | some c => fail (.unexpected c)
      | none => return Tree.root selectors) text.toList (r.map fun p => (.root p.1, p.2)) := by
    cases r with
    | error e => exact hr.tracks.stop
    | ok p =>
      apply hr.tracks.then
      apply tracks_peek.then
      rw [(hr.stops p rfl).2]
      exact tracks_pure _
  have harrives : Arrives text ((readAll text).outcome rounds start) _ :=
    htracks rounds start hrounds (stands_start text)
  generalize (readAll text).outcome rounds start = outcome at harrives ⊢
  have hwithin : ∀ {p : Nat}, Boundary text p → p ≤ text.utf8ByteSize ∧ Boundary text p :=
    fun h => ⟨boundary_le h, h⟩
  cases r with
  | ok p =>
    have hparse : parse text = .ok (.root p.1) := by
      rw [parse, hread]
      rfl
    cases harrives with
    | ok hstands =>
      rw [hparse]
      exact ⟨_, rfl, fun p hp => hwithin (hstands.passed p hp), nofun⟩
  | error e =>
    have hparse : parse text = .error ⟨e.cause, position text e.rest⟩ := by
      rw [parse, hread]
      rfl
    cases harrives with
    | error hrest hpassed =>
      rw [hparse]
      refine ⟨_, rfl, fun p hp => hwithin (hpassed p hp), ?_⟩
      rintro e' heq
      cases heq
      exact hwithin (boundary_position hrest)

theorem readAll_outcome_unclosed :
    "é/*".toList.length < 4 ∧
      ∃ c, (readAll "é/*").outcome 4 start = (.error (.failed ⟨.unclosedComment, 2⟩), c) ∧
        ∀ p ∈ c.passed, p ≤ 4 ∧ Boundary "é/*" p := by
  have hrounds : "é/*".toList.length < 4 := by decide
  have hcomment : Selector.skipTrivia ['/', '*'] = .error ⟨.unclosedComment, ['/', '*']⟩ := by
    simp [Selector.skipTrivia, closeComment?]
  have htag : step .start "é/*".toList = .ok (.more ⟨⟨[], [.leaf .tag "é"]⟩, []⟩ ['/', '*']) := by
    have hblank : isBlank 'é' = false := by decide
    change Selector.skipTrivia ['é', '/', '*'] >>= _ = _
    rw [tight_cons hblank (by decide)]
    rfl
  have hread : Selector.readList .start "é/*".toList = .error ⟨.unclosedComment, ['/', '*']⟩ := by
    apply (readList_of_more htag).trans
    apply readList_of_error
    rw [step, hcomment]
    rfl
  have hparse : parse "é/*" = .error ⟨.unclosedComment, 2⟩ := by
    rw [parse, hread]
    rfl
  obtain ⟨c, hc, hpassed, -⟩ := readAll_outcome "é/*" hrounds
  rw [hparse] at hc
  exact ⟨hrounds, c, hc, hpassed⟩

end Whole

end ScopedStyles.Selector.Cursor
