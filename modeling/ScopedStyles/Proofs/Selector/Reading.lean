import ScopedStyles.Selector.Parser

namespace ScopedStyles.Selector

def EndsName (k : List Char) : Prop :=
  ∀ c ∈ k.head?, isNameChar c = false

/-- A name stands in front of `k`, and ends there. -/
def NameBefore (n k : List Char) : Prop :=
  n ≠ [] ∧ takeName (n ++ k) = (n, k)

theorem endsName_nil : EndsName [] := by
  intro c hc
  cases hc

theorem endsName_cons {c : Char} (hc : isNameChar c = false) (k : List Char) : EndsName (c :: k) := by
  intro d hd
  cases hd
  exact hc

theorem takeName_append (cs : List Char) : (takeName cs).1 ++ (takeName cs).2 = cs := by
  fun_induction takeName cs with
  | case1 c rest ih => rw [List.cons_append, List.cons_append, ih]
  | case2 c rest _ _ ih => rw [List.cons_append, ih]
  | case3 => rfl
  | case4 => rfl

theorem takeName_ends (cs : List Char) : EndsName (takeName cs).2 := by
  fun_induction takeName cs with
  | case1 c rest ih => exact ih
  | case2 c rest _ _ ih => exact ih
  | case3 c rest _ hc => exact endsName_cons (Bool.eq_false_iff.2 hc) rest
  | case4 => exact endsName_nil

theorem takeName_of_ends {k : List Char} (h : EndsName k) : takeName k = ([], k) := by
  cases k with
  | nil => rfl
  | cons c k =>
    have hc : isNameChar c = false := h c rfl
    unfold takeName
    split
    · next heq =>
      cases heq
      cases hc
    · next heq =>
      cases heq
      rw [if_neg (Bool.eq_false_iff.1 hc)]
    · next heq => cases heq

/-- A name is read again in front of every text that ends it. Only at the end of a text can a name
close with a backslash that takes no character along. -/
theorem takeName_again {cs k : List Char} (hk : EndsName k)
    (hend : (takeName cs).2 = [] → k = [] ∨ (takeName cs).1.getLast? ≠ some '\\') :
    takeName ((takeName cs).1 ++ k) = ((takeName cs).1, k) := by
  fun_induction takeName cs with
  | case1 c rest ih =>
    have hrest : takeName ((takeName rest).1 ++ k) = ((takeName rest).1, k) := by
      apply ih
      intro hnil
      apply (hend hnil).imp_right
      intro hlast heq
      apply hlast
      simp [List.getLast?_cons, heq]
    rw [List.cons_append, List.cons_append, takeName, hrest]
  | case2 c rest hne hc ih =>
    by_cases hslash : c = '\\'
    · subst hslash
      cases rest with
      | nil =>
        rcases hend rfl with rfl | hlast
        · rfl
        · exact (hlast rfl).elim
      | cons d rest => exact (hne d rest rfl rfl).elim
    · have hrest : takeName ((takeName rest).1 ++ k) = ((takeName rest).1, k) := by
        apply ih
        intro hnil
        apply (hend hnil).imp_right
        intro hlast heq
        apply hlast
        simp [List.getLast?_cons, heq]
      rw [List.cons_append, takeName.eq_2 _ _ fun _ _ h _ => hslash h, if_pos hc, hrest]
  | case3 => exact takeName_of_ends hk
  | case4 => exact takeName_of_ends hk

theorem NameBefore.again {n r k : List Char} (h : NameBefore n r) (hk : EndsName k)
    (hend : r = [] → k = [] ∨ n.getLast? ≠ some '\\') : NameBefore n k := by
  refine ⟨h.1, ?_⟩
  have hagain : ((takeName (n ++ r)).2 = [] →
      k = [] ∨ (takeName (n ++ r)).1.getLast? ≠ some '\\') →
      takeName ((takeName (n ++ r)).1 ++ k) = ((takeName (n ++ r)).1, k) := takeName_again hk
  rw [h.2] at hagain
  exact hagain hend

theorem NameBefore.ends {n r : List Char} (h : NameBefore n r) : EndsName r := by
  have := takeName_ends (n ++ r)
  rwa [h.2] at this

theorem NameBefore.head {n r : List Char} (h : NameBefore n r) :
    ∃ c rest, n = c :: rest ∧ isNameChar c = true := by
  obtain ⟨hne, hn⟩ := h
  cases n with
  | nil => exact (hne rfl).elim
  | cons c rest =>
    refine ⟨c, rest, rfl, ?_⟩
    cases hc : isNameChar c with
    | true => rfl
    | false =>
      have hends : EndsName (c :: rest ++ r) := by
        intro d hd
        cases hd
        exact hc
      rw [takeName_of_ends hends] at hn
      cases hn

theorem readName_eq_ok_iff {what : Expected} {cs r : List Char} {name : String} :
    readName what cs = .ok (name, r) ↔ cs = name.toList ++ r ∧ NameBefore name.toList r := by
  constructor
  · intro h
    have happend := takeName_append cs
    unfold readName at h
    cases htake : takeName cs with
    | mk n rest =>
      rw [htake] at h happend
      cases n with
      | nil => cases h
      | cons c n =>
        cases h
        rw [String.toList_ofList]
        exact ⟨happend.symm, List.cons_ne_nil _ _, happend.symm ▸ htake⟩
  · rintro ⟨rfl, hname⟩
    obtain ⟨c, n, hn, -⟩ := hname.head
    unfold readName
    rw [hname.2, hn]
    change Except.ok (String.ofList (c :: n), r) = _
    rw [← hn, String.ofList_toList]

/-- Trivia is skipped whatever follows it. -/
def Trivia (ts : List Char) : Prop :=
  ∀ k, skipTrivia (ts ++ k) = skipTrivia k

def Tight (k : List Char) : Prop :=
  skipTrivia k = .ok k

theorem closeComment?_append {body rest : List Char} (h : closeComment? body = some rest) :
    ∃ inner, body = inner ++ rest ∧ ∀ k, closeComment? (inner ++ k) = some k := by
  fun_induction closeComment? body with
  | case1 rest' =>
    cases h
    exact ⟨['*', '/'], rfl, fun k => rfl⟩
  | case2 c body hne ih =>
    obtain ⟨inner, rfl, hinner⟩ := ih h
    refine ⟨c :: inner, rfl, fun k => ?_⟩
    cases inner with
    | nil => cases hinner []
    | cons d inner =>
      rw [← hinner k]
      refine closeComment?.eq_2 _ _ fun rest' hc hd => ?_
      cases hd
      exact hne _ hc rfl
  | case3 => cases h

theorem skipTrivia_comment {body rest : List Char} (h : closeComment? body = some rest) :
    skipTrivia ('/' :: '*' :: body) = skipTrivia rest := by
  rw [skipTrivia]
  split <;> simp_all

theorem tight_nil : Tight [] := by
  unfold Tight
  rw [skipTrivia]

theorem tight_cons {c : Char} (hc : isBlank c = false) (hslash : c ≠ '/') (k : List Char) :
    Tight (c :: k) := by
  unfold Tight
  rw [skipTrivia.eq_3 _ _ fun body h _ => hslash h, if_neg (Bool.eq_false_iff.1 hc)]

theorem Tight.head_not_blank {c : Char} {k : List Char} (h : Tight (c :: k)) :
    isBlank c = false := by
  cases hc : isBlank c with
  | false => rfl
  | true =>
    unfold Tight at h
    rw [skipTrivia_blank hc] at h
    have hwithin := skipTrivia_within k
    rw [h] at hwithin
    have := List.IsSuffix.length_le hwithin
    simp only [id, List.length_cons] at this
    omega

theorem not_tight_comment (body : List Char) : ¬ Tight ('/' :: '*' :: body) := by
  intro h
  unfold Tight at h
  rw [skipTrivia] at h
  split at h
  · next rest hclose =>
    have hwithin := skipTrivia_within rest
    rw [h] at hwithin
    have hle := (List.IsSuffix.trans hwithin (closeComment?_suffix hclose)).length_le
    simp only [id, List.length_cons] at hle
    omega
  · cases h

theorem tight_cons_iff {c : Char} {k : List Char} :
    Tight (c :: k) ↔ isBlank c = false ∧ ¬ (c = '/' ∧ k.head? = some '*') := by
  constructor
  · intro h
    refine ⟨h.head_not_blank, ?_⟩
    rintro ⟨rfl, hk⟩
    obtain ⟨body, rfl⟩ := List.head?_eq_some_iff.1 hk
    exact not_tight_comment body h
  · rintro ⟨hc, hcomment⟩
    have hopen : ∀ body, c = '/' → k = '*' :: body → False := by
      rintro body hslash rfl
      exact hcomment ⟨hslash, rfl⟩
    unfold Tight
    rw [skipTrivia.eq_3 _ _ hopen, if_neg (Bool.eq_false_iff.1 hc)]

theorem trivia_nil : Trivia [] :=
  fun _ => rfl

theorem skipTrivia_eq_ok_iff {cs r : List Char} :
    skipTrivia cs = .ok r ↔ ∃ ts, cs = ts ++ r ∧ Trivia ts ∧ Tight r := by
  constructor
  · intro h
    fun_induction skipTrivia cs with
    | case1 =>
      cases h
      exact ⟨[], rfl, trivia_nil, tight_nil⟩
    | case2 body rest hclose _ ih =>
      obtain ⟨ts, rfl, hts, hr⟩ := ih h
      obtain ⟨inner, rfl, hinner⟩ := closeComment?_append hclose
      refine ⟨'/' :: '*' :: (inner ++ ts), by simp, fun k => ?_, hr⟩
      have hk := hinner (ts ++ k)
      rw [← List.append_assoc] at hk
      exact (skipTrivia_comment hk).trans (hts k)
    | case3 body hclose => cases h
    | case4 c rest hslash hc ih =>
      obtain ⟨ts, rfl, hts, hr⟩ := ih h
      exact ⟨c :: ts, rfl, fun k => (skipTrivia_blank hc _).trans (hts k), hr⟩
    | case5 c rest hslash hc =>
      cases h
      refine ⟨[], rfl, trivia_nil, ?_⟩
      unfold Tight
      rw [skipTrivia.eq_3 _ _ hslash, if_neg hc]
  · rintro ⟨ts, rfl, hts, hr⟩
    rw [hts, hr]

/-- The rest of a string with its closing quote, which is read alike whatever follows. -/
def Quoted (quote : Char) (inner : List Char) : Prop :=
  ∀ k, takeQuoted quote (inner ++ k) = some (inner, k)

theorem takeQuoted_eq_some_iff {quote : Char} {body inner r : List Char} :
    takeQuoted quote body = some (inner, r) ↔ body = inner ++ r ∧ Quoted quote inner := by
  constructor
  · intro h
    fun_induction takeQuoted quote body generalizing inner r with
    | case1 c rest ih =>
      obtain ⟨⟨inner', r'⟩, hrest, heq⟩ := Option.map_eq_some_iff.1 h
      cases heq
      obtain ⟨rfl, hinner⟩ := ih hrest
      refine ⟨rfl, fun k => ?_⟩
      rw [List.cons_append, List.cons_append, takeQuoted, hinner]
      rfl
    | case2 => cases h
    | case3 rest hslash hslash' =>
      cases h
      refine ⟨rfl, fun k => ?_⟩
      have hne : quote ≠ '\\' := by
        intro hq
        cases rest with
        | nil => exact hslash' hq rfl
        | cons c rest => exact hslash c rest hq rfl
      rw [List.cons_append, takeQuoted.eq_3 _ _ _ (fun _ _ hq _ => hne hq) fun hq _ => hne hq,
        if_pos rfl]
      rfl
    | case4 c rest hslash hslash' hc ih =>
      obtain ⟨⟨inner', r'⟩, hrest, heq⟩ := Option.map_eq_some_iff.1 h
      cases heq
      obtain ⟨rfl, hinner⟩ := ih hrest
      refine ⟨rfl, fun k => ?_⟩
      have hne : c ≠ '\\' := by
        intro hq
        cases hbody : inner' ++ r' with
        | nil => exact hslash' hq hbody
        | cons d rest => exact hslash d rest hq hbody
      rw [List.cons_append, takeQuoted.eq_3 _ _ _ (fun _ _ hq _ => hne hq) fun hq _ => hne hq,
        if_neg hc, hinner]
      rfl
    | case5 => cases h
  · rintro ⟨rfl, h⟩
    exact h r

theorem readString_eq_ok_iff {quote : Char} {body r : List Char} {text : String} :
    readString quote body = .ok (text, r) ↔
      ∃ inner, text = String.ofList (quote :: inner) ∧ body = inner ++ r ∧ Quoted quote inner := by
  constructor
  · intro h
    unfold readString at h
    cases htake : takeQuoted quote body with
    | none =>
      rw [htake] at h
      cases h
    | some q =>
      rw [htake] at h
      cases h
      obtain ⟨hbody, hquoted⟩ := takeQuoted_eq_some_iff.1 htake
      exact ⟨q.1, rfl, hbody, hquoted⟩
  · rintro ⟨inner, rfl, rfl, h⟩
    unfold readString
    rw [h r]

end ScopedStyles.Selector
