import ScopedStyles.Proofs.Selector.Cursor

namespace ScopedStyles.Selector

/-- A character begins at the position, or the text ends there. -/
def Boundary (text : String) (p : Nat) : Prop :=
  (String.Pos.Raw.mk p).IsValid text

def position (text : String) (cs : List Char) : Nat :=
  text.utf8ByteSize - (String.ofList cs).utf8ByteSize

structure Stands (text : String) (c : Cursor) (cs : List Char) : Prop where
  rest : cs <:+ text.toList
  pos : c.pos = position text cs
  passed : ∀ p ∈ c.passed, Boundary text p

/-- The outcome of a walk is that of a reader. -/
inductive Arrives {α : Type} (text : String) :
    Except Halt α × Cursor → Except Failure (α × List Char) → Prop
  | ok {a : α} {rest : List Char} {c : Cursor} (h : Stands text c rest) :
    Arrives text (.ok a, c) (.ok (a, rest))
  | error {f : Failure} {c : Cursor} (hrest : f.rest <:+ text.toList)
    (hpassed : ∀ p ∈ c.passed, Boundary text p) :
    Arrives text (.error (.failed ⟨f.cause, position text f.rest⟩), c) (.error f)

/-- From where `cs` is left, the walk comes to `r`. -/
def Tracks {α : Type} (text : String) (x : Walk α) (cs : List Char)
    (r : Except Failure (α × List Char)) : Prop :=
  ∀ rounds c, text.toList.length < rounds → Stands text c cs → Arrives text (x.outcome rounds c) r

variable {α β : Type} {text : String} {cs ds rest : List Char} {d : Char}

section Positions

theorem utf8ByteSize_append_list (l : List Char) :
    (String.ofList (l ++ cs)).utf8ByteSize =
      (String.ofList l).utf8ByteSize + (String.ofList cs).utf8ByteSize := by
  rw [String.ofList_append, String.utf8ByteSize_append]

theorem utf8ByteSize_cons (d : Char) (cs : List Char) :
    (String.ofList (d :: cs)).utf8ByteSize = d.utf8Size + (String.ofList cs).utf8ByteSize := by
  rw [← List.singleton_append, utf8ByteSize_append_list, ← String.singleton_eq_ofList,
    String.utf8ByteSize_singleton]

theorem position_of_append {l : List Char} (h : text.toList = l ++ cs) :
    position text cs = (String.ofList l).utf8ByteSize := by
  have hsize : text.utf8ByteSize = (String.ofList (l ++ cs)).utf8ByteSize := by
    rw [← h, String.ofList_toList]
  rw [position, hsize, utf8ByteSize_append_list, Nat.add_sub_cancel]

theorem position_append {l : List Char} (h : l ++ cs <:+ text.toList) :
    position text cs = position text (l ++ cs) + (String.ofList l).utf8ByteSize := by
  obtain ⟨k, hk⟩ := h
  rw [position_of_append hk.symm, position_of_append (hk.symm.trans (List.append_assoc k l cs).symm),
    utf8ByteSize_append_list]

theorem position_cons (h : d :: cs <:+ text.toList) :
    position text cs = position text (d :: cs) + d.utf8Size := by
  have hsize : (String.ofList [d]).utf8ByteSize = d.utf8Size := by
    rw [← String.singleton_eq_ofList, String.utf8ByteSize_singleton]
  have happend : [d] ++ cs <:+ text.toList := h
  rw [← hsize]
  exact position_append happend

theorem boundary_position (h : cs <:+ text.toList) : Boundary text (position text cs) := by
  obtain ⟨l, hl⟩ := h
  rw [Boundary, String.Pos.Raw.isValid_iff_exists_append]
  refine ⟨String.ofList l, String.ofList cs, ?_, ?_⟩
  · rw [← String.ofList_append, hl, String.ofList_toList]
  · rw [position_of_append hl.symm]
    rfl

theorem charsFrom?_append (l cs : List Char) :
    charsFrom? (l ++ cs) (String.ofList l).utf8ByteSize = some cs := by
  induction l with
  | nil =>
    cases cs with
    | nil => rfl
    | cons => rfl
  | cons d l ih =>
    have hpos := Char.utf8Size_pos d
    rw [utf8ByteSize_cons, List.cons_append]
    obtain ⟨n, hn⟩ : ∃ n, d.utf8Size + (String.ofList l).utf8ByteSize = n + 1 :=
      ⟨d.utf8Size + (String.ofList l).utf8ByteSize - 1, by omega⟩
    rw [hn, charsFrom?, if_pos (by omega), ← hn, Nat.add_sub_cancel_left, ih]

theorem charsFrom?_position (h : cs <:+ text.toList) :
    charsFrom? text.toList (position text cs) = some cs := by
  obtain ⟨l, hl⟩ := h
  rw [position_of_append hl.symm, ← hl, charsFrom?_append]

end Positions

section Walks

variable {x : Walk α} {k : α → Walk β}

theorem outcome_bind {rounds : Nat} {c : Cursor} :
    (x >>= k).outcome rounds c =
      match x.outcome rounds c with
      | (.ok a, c') => (k a).outcome rounds c'
      | (.error e, c') => (.error e, c') := by
  change ExceptT.bindCont (fun a => k a rounds) (x.outcome rounds c).1 (x.outcome rounds c).2 = _
  obtain ⟨r, c'⟩ := x.outcome rounds c
  cases r with
  | ok a => rfl
  | error e => rfl

theorem tracks_pure (a : α) : Tracks text (pure a) cs (.ok (a, cs)) :=
  fun _ _ _ h => .ok h

theorem Tracks.bind {r : Except Failure (α × List Char)}
    {k' : α × List Char → Except Failure (β × List Char)} (h : Tracks text x cs r)
    (hk : ∀ a rest, r = .ok (a, rest) → Tracks text (k a) rest (k' (a, rest))) :
    Tracks text (x >>= k) cs (r >>= k') := by
  intro rounds c hrounds hc
  have harrives := h rounds c hrounds hc
  rw [outcome_bind]
  generalize x.outcome rounds c = outcome at harrives ⊢
  cases harrives with
  | ok hstands => exact hk _ _ rfl _ _ hrounds hstands
  | error hrest hpassed => exact .error hrest hpassed

/-- A walk that surely reads something goes on from there. -/
theorem Tracks.then {a : α} {r : Except Failure (β × List Char)}
    (h : Tracks text x cs (.ok (a, rest))) (hk : Tracks text (k a) rest r) :
    Tracks text (x >>= k) cs r := by
  intro rounds c hrounds hc
  have harrives := h rounds c hrounds hc
  rw [outcome_bind]
  generalize x.outcome rounds c = outcome at harrives ⊢
  cases harrives with
  | ok hstands => exact hk _ _ hrounds hstands

theorem Tracks.stop {e : Failure} (h : Tracks text x cs (.error e)) :
    Tracks text (x >>= k) cs (.error e) := by
  intro rounds c hrounds hc
  have harrives := h rounds c hrounds hc
  rw [outcome_bind]
  generalize x.outcome rounds c = outcome at harrives ⊢
  cases harrives with
  | error hrest hpassed => exact .error hrest hpassed

theorem tracks_of_suffix {r : Except Failure (α × List Char)}
    (h : cs <:+ text.toList → Tracks text x cs r) : Tracks text x cs r :=
  fun rounds c hrounds hc => h hc.rest rounds c hrounds hc

theorem Tracks.get {k : Cursor → Walk α} {r : Except Failure (α × List Char)}
    (h : ∀ c, c.pos = position text cs → Tracks text (k c) cs r) :
    Tracks text (MonadState.get >>= k) cs r :=
  fun rounds c hrounds hc => h c hc.pos rounds c hrounds hc

theorem Tracks.rounds {k : Nat → Walk α} {r : Except Failure (α × List Char)}
    (h : ∀ rounds, cs.length < rounds → Tracks text (k rounds) cs r) :
    Tracks text (MonadReader.read >>= k) cs r := by
  intro rounds c hrounds hc
  exact h rounds (Nat.lt_of_le_of_lt hc.rest.length_le hrounds) rounds c hrounds hc

theorem tracks_throw (cause : Cause) (hds : ds <:+ text.toList) :
    Tracks (α := α) text (throw (.failed ⟨cause, position text ds⟩)) cs (.error ⟨cause, ds⟩) :=
  fun _ _ _ hc => .error (f := ⟨cause, ds⟩) hds hc.passed

end Walks

namespace Cursor

theorem tracks_fail (cause : Cause) :
    Tracks (α := α) text (fail cause) cs (.error ⟨cause, cs⟩) := by
  apply tracks_of_suffix
  intro hcs
  apply Tracks.get
  intro c hpos
  rw [hpos]
  exact tracks_throw cause hcs

theorem tracks_moveTo (h : rest <:+ text.toList) :
    Tracks text (moveTo (position text rest)) cs (.ok ((), rest)) := by
  intro rounds c _ hc
  refine .ok ⟨h, rfl, ?_⟩
  exact List.forall_mem_cons.2 ⟨boundary_position h, hc.passed⟩

theorem tracks_slice (h : rest <:+ text.toList) :
    Tracks text (slice text (position text rest)) cs (.ok (rest, cs)) := by
  rw [slice, charsFrom?_position h]
  exact tracks_pure rest

theorem tracks_between {l : List Char} (h : l ++ rest <:+ text.toList) :
    Tracks text (between text (position text (l ++ rest)) (position text rest)) cs
      (.ok (String.ofList l, cs)) := by
  have hrest := (List.suffix_append l rest).trans h
  have hle : position text (l ++ rest) ≤ position text rest := by
    rw [position_append h]
    exact Nat.le_add_right _ _
  rw [between, charsFrom?_position h, charsFrom?_position hrest]
  dsimp only
  rw [if_pos hle, List.length_append, Nat.add_sub_cancel, List.take_left]
  exact tracks_pure _

theorem tracks_peek : Tracks text (peek text) cs (.ok (cs.head?, cs)) := by
  apply tracks_of_suffix
  intro hcs
  apply Tracks.get
  intro c hpos
  rw [hpos]
  exact (tracks_slice hcs).then (tracks_pure _)

theorem tracks_peekSecond : Tracks text (peekSecond text) cs (.ok (cs[1]?, cs)) := by
  apply tracks_of_suffix
  intro hcs
  apply Tracks.get
  intro c hpos
  rw [hpos]
  exact (tracks_slice hcs).then (tracks_pure _)

theorem tracks_bump : Tracks text (bump text) cs (.ok (cs.head?, cs.tail)) := by
  apply tracks_of_suffix
  intro hcs
  apply tracks_peek.then
  cases cs with
  | nil => exact tracks_pure none
  | cons d cs =>
    apply Tracks.get
    intro c hpos
    rw [hpos, ← position_cons hcs]
    exact (tracks_moveTo ((List.suffix_cons d cs).trans hcs)).then (tracks_pure _)

end Cursor

end ScopedStyles.Selector
