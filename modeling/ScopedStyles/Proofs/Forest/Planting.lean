import ScopedStyles.Proofs.Forest.Edits
import ScopedStyles.Proofs.Selector.Trees

namespace ScopedStyles.Forest

open Selector

variable {f f' : Forest} {kids kids' : Nat → List Nat} {rank : Nat → Nat} {p i : Nat}

theorem treeTo_frame (h : Linked f kids) (h' : Linked f' kids')
    (hsame : ∀ j, Below kids i j → f'.label j = f.label j ∧ kids' j = kids j) (d : Nat) :
    f'.treeTo d i = f.treeTo d i := by
  induction d generalizing i with
  | zero =>
    unfold treeTo
    rw [(hsame i .refl).1]
  | succ d ih =>
    obtain ⟨hlabel, hkids⟩ := hsame i .refl
    unfold treeTo
    rw [h.children_eq, h'.children_eq, hlabel, hkids]
    refine congrArg (Selector.Tree.node (f.label i)) (List.map_congr_left fun j hj => ?_)
    exact ih fun k hk => hsame k (.head hj hk)

theorem tree_frame (h : Linked f kids) (h' : Linked f' kids') (hg : Graded f kids rank)
    (hi : i < f.size) (hsize : f.size ≤ f'.size)
    (hsame : ∀ j, Below kids i j → f'.label j = f.label j ∧ kids' j = kids j) :
    f'.tree i = f.tree i := by
  have hframe := treeTo_frame h h' hsame f'.size
  have hdepth := treeTo_congr h hg hi (Nat.le_add_right_of_le hsize) (Nat.le_add_right _ _)
  exact hframe.trans hdepth

/-- The forest after `ts` have been planted below `p`, and its lists of children. -/
structure Planted (f : Forest) (kids : Nat → List Nat) (p : Nat) (ts : List Tree) (f' : Forest)
    (kids' : Nat → List Nat) : Prop where
  linked : Linked f' kids'
  graded : Graded f' kids' id
  size : f.size ≤ f'.size
  label : ∀ j < f.size, f'.label j = f.label j
  other : ∀ j < f.size, j ≠ p → kids' j = kids j
  children : ∃ added, kids' p = kids p ++ added ∧ added.map f'.tree = ts

theorem Planted.nothing (h : Linked f kids) (hg : Graded f kids id) : Planted f kids p [] f kids :=
  ⟨h, hg, Nat.le_refl _, fun _ _ => rfl, fun _ _ _ => rfl, [], (List.append_nil _).symm, rfl⟩

theorem Planted.trans {f'' : Forest} {kids'' : Nat → List Nat} {ts us : List Tree}
    (h : Planted f kids p ts f' kids') (h' : Planted f' kids' p us f'' kids'') :
    Planted f kids p (ts ++ us) f'' kids'' := by
  obtain ⟨added, hadded, hts⟩ := h.children
  obtain ⟨later, hlater, hus⟩ := h'.children
  have hkept : added.map f''.tree = added.map f'.tree := by
    apply List.map_congr_left
    intro i hi
    have hmem : i ∈ kids' p := by
      rw [hadded]
      exact List.mem_append_right _ hi
    have his := (h.linked.bound hmem).2
    apply tree_frame h.linked h'.linked h.graded his h'.size
    intro j hj
    have hle : i ≤ j := hj.rank_le h.graded
    have hlt : p < i := h.graded.above hmem
    have hjs := hj.lt h.linked his
    exact ⟨h'.label j hjs, h'.other j hjs (by omega)⟩
  constructor
  · exact h'.linked
  · exact h'.graded
  · exact Nat.le_trans h.size h'.size
  · intro j hj
    exact (h'.label j (Nat.lt_of_lt_of_le hj h.size)).trans (h.label j hj)
  · intro j hj hne
    exact (h'.other j (Nat.lt_of_lt_of_le hj h.size) hne).trans (h.other j hj hne)
  · refine ⟨added ++ later, ?_, ?_⟩
    · rw [hlater, hadded, List.append_assoc]
    · rw [List.map_append, hkept, hts, hus]

theorem plantAll_planted {ts : List Tree}
    (hts : ∀ t ∈ ts, ∀ {f kids p}, Linked f kids → Graded f kids id → p < f.size →
      ∃ kids', Planted f kids p [t] (f.plant p t) kids')
    (h : Linked f kids) (hg : Graded f kids id) (hp : p < f.size) :
    ∃ kids', Planted f kids p ts (f.plantAll p ts) kids' := by
  induction ts generalizing f kids with
  | nil =>
    unfold plantAll
    exact ⟨kids, .nothing h hg⟩
  | cons t ts ih =>
    obtain ⟨kids₁, h₁⟩ := hts t List.mem_cons_self h hg hp
    have hp₁ : p < (f.plant p t).size := Nat.lt_of_lt_of_le hp h₁.size
    obtain ⟨kids₂, h₂⟩ := ih (fun t ht => hts t (List.mem_cons_of_mem _ ht)) h₁.linked h₁.graded hp₁
    unfold plantAll
    exact ⟨kids₂, h₁.trans h₂⟩

theorem append_create (h : Linked f kids) (hg : Graded f kids id) (hp : p < f.size) (l : Label) :
    Linked ((f.create l).1.append p f.size) (Function.update kids p (kids p ++ [f.size])) ∧
      Graded ((f.create l).1.append p f.size) (Function.update kids p (kids p ++ [f.size])) id ∧
      ((f.create l).1.append p f.size).size = f.size + 1 ∧
      ∀ j, ((f.create l).1.append p f.size).label j = if j = f.size then l else f.label j := by
  have hcreate := h.create l
  have hsize : (f.create l).1.size = f.size + 1 := size_create l
  obtain ⟨happend, hsize', hlabel⟩ :=
    hcreate.append (p := p) (c := f.size) (by omega) (by omega) (by omega)
  have hwithout : without f.size kids = kids :=
    funext fun q => without_of_notMem (h.notMem_size q)
  rw [hwithout] at happend
  refine ⟨happend, ⟨?_, id⟩, hsize'.trans hsize, ?_⟩
  · intro q i hi
    by_cases hq : q = p
    · subst hq
      rw [Function.update_self] at hi
      rcases List.mem_append.1 hi with hold | hnew
      · exact hg.above hold
      · rw [List.mem_singleton.1 hnew]
        exact hp
    · rw [Function.update_of_ne hq] at hi
      exact hg.above hi
  · intro j
    rw [hlabel]
    unfold label
    rw [get_create]
    split
    · rfl
    · rfl

theorem plant_planted (t : Tree) : ∀ {f kids p}, Linked f kids → Graded f kids id → p < f.size →
    ∃ kids', Planted f kids p [t] (f.plant p t) kids' := by
  induction t using Tree.induct with
  | node l ts ih =>
    intro f kids p h hg hp
    obtain ⟨h₁, hg₁, hsize₁, hlabel₁⟩ := append_create h hg hp l
    have hi : f.size < ((f.create l).1.append p f.size).size := by omega
    obtain ⟨kids', h'⟩ := plantAll_planted ih h₁ hg₁ hi
    have hplant : f.plant p (.node l ts) =
        ((f.create l).1.append p f.size).plantAll f.size ts := by
      unfold plant
      rfl
    obtain ⟨added, hadded, hts⟩ := h'.children
    have hp' : kids' p = kids p ++ [f.size] := by
      rw [h'.other p (by omega) (by omega), Function.update_self]
    have hsize : f.size < (((f.create l).1.append p f.size).plantAll f.size ts).size :=
      Nat.lt_of_lt_of_le hi h'.size
    have htree : (((f.create l).1.append p f.size).plantAll f.size ts).tree f.size = .node l ts := by
      rw [tree_eq h'.linked h'.graded hsize, h'.label _ hi, hlabel₁, if_pos rfl, hadded,
        Function.update_of_ne (Nat.ne_of_gt hp), h.kids_size, List.nil_append, hts]
    refine ⟨kids', ?_⟩
    rw [hplant]
    refine ⟨h'.linked, h'.graded, Nat.le_of_lt hsize, ?_, ?_, [f.size], hp', ?_⟩
    · intro j hj
      rw [h'.label j (by omega), hlabel₁, if_neg (Nat.ne_of_lt hj)]
    · intro j hj hne
      rw [h'.other j (by omega) (by omega), Function.update_of_ne hne]
    · rw [List.map_singleton, htree]

theorem single_linked (l : Label) :
    Linked (single l) (fun _ => []) ∧ Graded (single l) (fun _ => []) id := by
  have hget : ∀ j, (single l).get j = if j = 0 then Node.alone l else default := by
    intro j
    unfold single get
    cases j with
    | zero => rfl
    | succ j => simp [Array.getD_eq_getD_getElem?]
  have hnone : ∀ j, (single l).get j = ⟨((single l).get j).label, none, none, none, none, none⟩ := by
    intro j
    rw [hget]
    split
    · rfl
    · rfl
  refine ⟨⟨?_, ?_, ?_, ?_, ?_, ?_⟩, ⟨?_, id⟩⟩
  · intro p i hi
    cases hi
  · intro p
    exact List.nodup_nil
  · intro p
    rw [hnone]
    rfl
  · intro p
    rw [hnone]
    rfl
  · intro p l₁ i l₂ hsplit
    exact absurd hsplit.symm (List.append_ne_nil_of_right_ne_nil _ (List.cons_ne_nil _ _))
  · intro i hi
    rw [hnone]
    exact ⟨rfl, rfl, rfl⟩
  · intro p i hi
    cases hi

/-- A tree laid out as linked nodes is read back as it was. -/
theorem ofTree_planted (t : Tree) :
    ∃ kids, Linked (ofTree t) kids ∧ Graded (ofTree t) kids id ∧ root < (ofTree t).size ∧
      (ofTree t).tree root = t := by
  cases t with
  | node l ts =>
    obtain ⟨hlinked, hgraded⟩ := single_linked l
    have hroot : root < (single l).size := Nat.zero_lt_one
    obtain ⟨kids, h⟩ := plantAll_planted (fun t (_ : t ∈ ts) => plant_planted t) hlinked hgraded hroot
    obtain ⟨added, hadded, hts⟩ := h.children
    have hsize := Nat.lt_of_lt_of_le hroot h.size
    refine ⟨kids, h.linked, h.graded, hsize, ?_⟩
    have htree := tree_eq h.linked h.graded hsize
    rw [hadded, List.nil_append, hts, h.label root hroot] at htree
    exact htree

end ScopedStyles.Forest
