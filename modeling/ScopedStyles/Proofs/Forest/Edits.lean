import ScopedStyles.Proofs.Forest.Walks

namespace ScopedStyles.Forest

open Selector

variable {f : Forest} {kids : Nat → List Nat} {p r i c : Nat} {a b : List Nat}

section Links

variable {prev next : Option Nat}

theorem size_linkAfter (parent : Option Nat) : (f.linkAfter parent prev next).size = f.size := by
  cases prev with
  | some x => exact f.size_modify x _
  | none =>
    cases parent with
    | some p => exact f.size_modify p _
    | none => rfl

theorem size_linkBefore (parent : Option Nat) : (f.linkBefore parent next prev).size = f.size := by
  cases next with
  | some x => exact f.size_modify x _
  | none =>
    cases parent with
    | some p => exact f.size_modify p _
    | none => rfl

theorem get_linkAfter (hp : p < f.size) (hprev : ∀ x ∈ prev, x < f.size) (j : Nat) :
    (f.linkAfter (some p) prev next).get j =
      { f.get j with
        next := if prev = some j then next else (f.get j).next
        firstChild := if j = p ∧ prev = none then next else (f.get j).firstChild } := by
  cases prev with
  | some x =>
    have hget := f.get_modify x j (fun n => { n with next := next }) (hprev x rfl)
    apply hget.trans
    by_cases hx : x = j
    · subst hx
      rw [if_pos rfl, if_pos rfl, if_neg nofun]
    · have hsome : some x ≠ some j := fun heq => hx (Option.some.inj heq)
      rw [if_neg hx, if_neg hsome, if_neg nofun]
  | none =>
    have hget := f.get_modify p j (fun n => { n with firstChild := next }) hp
    apply hget.trans
    by_cases hj : p = j
    · subst hj
      rw [if_pos rfl, if_neg nofun, if_pos ⟨rfl, rfl⟩]
    · rw [if_neg hj, if_neg nofun, if_neg fun hand => hj hand.1.symm]

theorem get_linkBefore (hp : p < f.size) (hnext : ∀ x ∈ next, x < f.size) (j : Nat) :
    (f.linkBefore (some p) next prev).get j =
      { f.get j with
        prev := if next = some j then prev else (f.get j).prev
        lastChild := if j = p ∧ next = none then prev else (f.get j).lastChild } := by
  cases next with
  | some x =>
    have hget := f.get_modify x j (fun n => { n with prev := prev }) (hnext x rfl)
    apply hget.trans
    by_cases hx : x = j
    · subst hx
      rw [if_pos rfl, if_pos rfl, if_neg nofun]
    · have hsome : some x ≠ some j := fun heq => hx (Option.some.inj heq)
      rw [if_neg hx, if_neg hsome, if_neg nofun]
  | none =>
    have hget := f.get_modify p j (fun n => { n with lastChild := prev }) hp
    apply hget.trans
    by_cases hj : p = j
    · subst hj
      rw [if_pos rfl, if_neg nofun, if_pos ⟨rfl, rfl⟩]
    · rw [if_neg hj, if_neg nofun, if_neg fun hand => hj hand.1.symm]

end Links

theorem Linked.bounds (h : Linked f kids) (hp : kids p = a ++ c :: b) :
    p < f.size ∧ c < f.size ∧ (∀ x ∈ a.getLast?, x < f.size) ∧ ∀ x ∈ b.head?, x < f.size := by
  have hmem : ∀ {i}, i ∈ a ++ c :: b → p < f.size ∧ i < f.size := by
    intro i hi
    exact h.bound (hp ▸ hi)
  refine ⟨(hmem (List.mem_append_right _ List.mem_cons_self)).1,
    (hmem (List.mem_append_right _ List.mem_cons_self)).2, ?_, ?_⟩
  · intro x hx
    exact (hmem (List.mem_append_left _ (List.mem_of_getLast? hx))).2
  · intro x hx
    exact (hmem (List.mem_append_right _ (List.mem_cons_of_mem _ (List.mem_of_head? hx)))).2

theorem detach_removed (h : Linked f kids) (hp : kids p = a ++ c :: b) :
    Removed f (f.detach c) p c a b := by
  obtain ⟨hparent, hprev, hnext⟩ := h.links hp
  obtain ⟨hps, hcs, has, hbs⟩ := h.bounds hp
  have hdetach : f.detach c =
      ((f.linkAfter (some p) a.getLast? b.head?).linkBefore (some p) b.head? a.getLast?).modify c
        fun m => { m with parent := none, prev := none, next := none } := by
    unfold detach
    dsimp only
    rw [hparent, hprev, hnext]
  have hafter : (f.linkAfter (some p) a.getLast? b.head?).size = f.size := size_linkAfter _
  have hbefore : ((f.linkAfter (some p) a.getLast? b.head?).linkBefore (some p) b.head?
      a.getLast?).size = f.size := (size_linkBefore _).trans hafter
  have hsame : ∀ j, ((f.linkAfter (some p) a.getLast? b.head?).linkBefore (some p) b.head?
      a.getLast?).get j =
      ⟨(f.get j).label, (f.get j).parent, if b.head? = some j then a.getLast? else (f.get j).prev,
        if a.getLast? = some j then b.head? else (f.get j).next,
        if j = p ∧ a.getLast? = none then b.head? else (f.get j).firstChild,
        if j = p ∧ b.head? = none then a.getLast? else (f.get j).lastChild⟩ := by
    intro j
    rw [get_linkBefore (hafter ▸ hps) (fun x hx => hafter ▸ hbs x hx), get_linkAfter hps has]
  have hother : ∀ j, j ≠ c → (f.detach c).get j =
      ⟨(f.get j).label, (f.get j).parent, if b.head? = some j then a.getLast? else (f.get j).prev,
        if a.getLast? = some j then b.head? else (f.get j).next,
        if j = p ∧ a.getLast? = none then b.head? else (f.get j).firstChild,
        if j = p ∧ b.head? = none then a.getLast? else (f.get j).lastChild⟩ := by
    intro j hj
    rw [hdetach, get_modify _ _ _ _ (hbefore ▸ hcs), if_neg (Ne.symm hj), hsame]
  have hself : (f.detach c).get c = ⟨(f.get c).label, none, none, none,
      if c = p ∧ a.getLast? = none then b.head? else (f.get c).firstChild,
      if c = p ∧ b.head? = none then a.getLast? else (f.get c).lastChild⟩ := by
    rw [hdetach, get_modify _ _ _ _ (hbefore ▸ hcs), if_pos rfl, hsame]
  constructor
  · rw [hdetach, size_modify, hbefore]
  · intro j
    by_cases hj : j = c
    · subst hj
      exact (congrArg Node.label hself).trans rfl
    · exact (congrArg Node.label (hother j hj)).trans rfl
  · rw [hself]
    exact ⟨rfl, rfl, rfl⟩
  · intro j hj
    rw [hother j hj]
  · intro j hj
    rw [hother j hj]
  · intro j hj
    rw [hother j hj]
  · intro j
    by_cases hj : j = c
    · subst hj
      rw [hself]
    · rw [hother j hj]
  · intro j
    by_cases hj : j = c
    · subst hj
      rw [hself]
    · rw [hother j hj]

/-- The lists of children without `c`. -/
def without (c : Nat) (kids : Nat → List Nat) (p : Nat) : List Nat :=
  (kids p).filter (· ≠ c)

theorem mem_without : i ∈ without c kids p ↔ i ∈ kids p ∧ i ≠ c := by
  unfold without
  rw [List.mem_filter, decide_eq_true_eq]

theorem without_of_notMem (h : c ∉ kids p) : without c kids p = kids p := by
  unfold without
  rw [List.filter_eq_self]
  intro i hi
  rw [decide_eq_true_eq]
  intro heq
  exact h (heq ▸ hi)

theorem Linked.without_eq (h : Linked f kids) (hp : kids p = a ++ c :: b) :
    without c kids = Function.update kids p (a ++ b) := by
  funext q
  by_cases hq : q = p
  · subst hq
    have hnodup := h.nodup q
    rw [hp] at hnodup
    have ha : a.filter (· ≠ c) = a := by
      rw [List.filter_eq_self]
      grind
    have hb : b.filter (· ≠ c) = b := by
      rw [List.filter_eq_self]
      grind
    rw [Function.update_self]
    unfold without
    rw [hp, List.filter_append, List.filter_cons_of_neg (by simp), ha, hb]
  · rw [Function.update_of_ne hq]
    refine without_of_notMem fun hmem => hq (h.unique hmem ?_)
    rw [hp]
    simp

theorem get_modify_same (f : Forest) (i j : Nat) {change : Node → Node}
    (h : change (f.get i) = f.get i) : (f.modify i change).get j = f.get j := by
  by_cases hij : i = j
  · subst hij
    cases hn : f.nodes[i]? with
    | none => simp [get, modify, Array.getD_eq_getD_getElem?, Array.getElem?_modify, hn]
    | some n =>
      have hget : f.get i = n := by simp [get, Array.getD_eq_getD_getElem?, hn]
      rw [hget] at h
      simp [get, modify, Array.getD_eq_getD_getElem?, Array.getElem?_modify, hn, h]
  · simp [get, modify, Array.getD_eq_getD_getElem?, Array.getElem?_modify, hij]

theorem detach_orphan (h : Linked f kids) (hc : ∀ q, c ∉ kids q) (j : Nat) :
    (f.detach c).get j = f.get j ∧ (f.detach c).size = f.size := by
  obtain ⟨hparent, hprev, hnext⟩ := h.orphan hc
  have hdetach : f.detach c =
      f.modify c fun m => { m with parent := none, prev := none, next := none } := by
    unfold detach
    dsimp only
    rw [hparent, hprev, hnext]
    rfl
  rw [hdetach]
  have hcopy : ({ f.get c with parent := none, prev := none, next := none } : Node) = f.get c :=
    calc ({ f.get c with parent := none, prev := none, next := none } : Node)
        = { f.get c with
            parent := (f.get c).parent, prev := (f.get c).prev, next := (f.get c).next } := by
          rw [hparent, hprev, hnext]
      _ = f.get c := rfl
  exact ⟨get_modify_same f c j hcopy, f.size_modify c _⟩

theorem Linked.detach (h : Linked f kids) (c : Nat) : Linked (f.detach c) (without c kids) := by
  by_cases hsome : ∃ p, c ∈ kids p
  · obtain ⟨p, hc⟩ := hsome
    obtain ⟨a, b, hp⟩ := List.append_of_mem hc
    rw [h.without_eq hp]
    exact h.remove hp (detach_removed h hp)
  · have hc : ∀ p, c ∉ kids p := fun p hmem => hsome ⟨p, hmem⟩
    have hkids : without c kids = kids := funext fun p => without_of_notMem (hc p)
    rw [hkids]
    apply h.congr (detach_orphan h hc 0).2
    intro j
    rw [(detach_orphan h hc j).1]
    exact ⟨rfl, rfl, rfl, rfl, rfl⟩

theorem label_detach (h : Linked f kids) (c j : Nat) : (f.detach c).label j = f.label j := by
  by_cases hsome : ∃ p, c ∈ kids p
  · obtain ⟨p, hc⟩ := hsome
    obtain ⟨a, b, hp⟩ := List.append_of_mem hc
    exact (detach_removed h hp).label j
  · exact congrArg Node.label (detach_orphan h (fun p hmem => hsome ⟨p, hmem⟩) j).1

theorem size_detach (h : Linked f kids) (c : Nat) : (f.detach c).size = f.size := by
  by_cases hsome : ∃ p, c ∈ kids p
  · obtain ⟨p, hc⟩ := hsome
    obtain ⟨a, b, hp⟩ := List.append_of_mem hc
    exact (detach_removed h hp).size
  · exact (detach_orphan h (fun p hmem => hsome ⟨p, hmem⟩) 0).2

theorem insertBefore_inserted {f₁ : Forest} {kids₁ : Nat → List Nat} (h : Linked f₁ kids₁)
    (hdetach : f.detach c = f₁) (hp : kids₁ p = a ++ r :: b) (hc : ∀ q, c ∉ kids₁ q)
    (hcs : c < f₁.size) : Inserted f₁ (f.insertBefore r c) p c a (r :: b) := by
  obtain ⟨hparent, hprev, hnext⟩ := h.links hp
  obtain ⟨hps, hrs, has, -⟩ := h.bounds hp
  have hrc : r ≠ c := by
    intro heq
    apply hc p
    rw [hp, heq]
    exact List.mem_append_right _ List.mem_cons_self
  have hca : a.getLast? ≠ some c := by
    refine getLast?_ne_of_notMem fun hmem => hc p ?_
    rw [hp]
    exact List.mem_append_left _ hmem
  let f₂ : Forest := f₁.modify c fun m =>
    { m with parent := some p, prev := a.getLast?, next := some r }
  let f₃ : Forest := f₂.modify r fun m => { m with prev := some c }
  have hinsert : f.insertBefore r c = f₃.linkAfter (some p) a.getLast? (some c) := by
    unfold insertBefore
    dsimp only
    rw [hdetach, hparent, hprev]
  have hsize₂ : f₂.size = f₁.size := f₁.size_modify c _
  have hsize₃ : f₃.size = f₁.size := (f₂.size_modify r _).trans hsize₂
  have hget₂ : ∀ j, f₂.get j = if c = j then
      { f₁.get c with parent := some p, prev := a.getLast?, next := some r } else f₁.get j :=
    fun j => f₁.get_modify c j _ hcs
  have hget₃ : ∀ j, f₃.get j = if r = j then { f₂.get r with prev := some c } else f₂.get j :=
    fun j => f₂.get_modify r j _ (hsize₂ ▸ hrs)
  have hget : ∀ j, (f.insertBefore r c).get j =
      ⟨(f₃.get j).label, (f₃.get j).parent, (f₃.get j).prev,
        if a.getLast? = some j then some c else (f₃.get j).next,
        if j = p ∧ a.getLast? = none then some c else (f₃.get j).firstChild,
        (f₃.get j).lastChild⟩ := by
    intro j
    rw [hinsert, get_linkAfter (hsize₃ ▸ hps) (fun x hx => hsize₃ ▸ has x hx)]
  refine .of_get ?_ ?_ ?_
  · rw [hinsert, size_linkAfter, hsize₃]
  · rw [hget, hget₃, if_neg hrc, hget₂, if_pos rfl, if_neg hca]
    simp
  · intro j hj
    have hj₂ : f₂.get j = f₁.get j := by rw [hget₂, if_neg (Ne.symm hj)]
    rw [hget]
    by_cases hjr : r = j
    · subst hjr
      rw [hget₃, if_pos rfl, hj₂]
      simp
    · rw [hget₃, if_neg hjr, hj₂]
      simp [hjr]

theorem append_inserted {f₁ : Forest} {kids₁ : Nat → List Nat} (h : Linked f₁ kids₁)
    (hdetach : f.detach c = f₁) (hc : ∀ q, c ∉ kids₁ q) (hps : p < f₁.size) (hcs : c < f₁.size)
    (hpc : p ≠ c) : Inserted f₁ (f.append p c) p c (kids₁ p) [] := by
  have hlast := h.last p
  have hnext := (h.orphan hc).2.2
  have has : ∀ x ∈ (kids₁ p).getLast?, x < f₁.size := by
    intro x hx
    exact (h.bound (List.mem_of_getLast? hx)).2
  have hca : (kids₁ p).getLast? ≠ some c := getLast?_ne_of_notMem (hc p)
  let f₂ : Forest := f₁.modify c fun n => { n with parent := some p, prev := (kids₁ p).getLast? }
  let f₃ : Forest := f₂.linkAfter (some p) (kids₁ p).getLast? (some c)
  have happend : f.append p c = f₃.modify p fun n => { n with lastChild := some c } := by
    unfold append
    dsimp only
    rw [hdetach, hlast]
  have hsize₂ : f₂.size = f₁.size := f₁.size_modify c _
  have hsize₃ : f₃.size = f₁.size := (size_linkAfter _).trans hsize₂
  have hget₂ : ∀ j, f₂.get j = if c = j then
      { f₁.get c with parent := some p, prev := (kids₁ p).getLast? } else f₁.get j :=
    fun j => f₁.get_modify c j _ hcs
  have hget₃ : ∀ j, f₃.get j =
      ⟨(f₂.get j).label, (f₂.get j).parent, (f₂.get j).prev,
        if (kids₁ p).getLast? = some j then some c else (f₂.get j).next,
        if j = p ∧ (kids₁ p).getLast? = none then some c else (f₂.get j).firstChild,
        (f₂.get j).lastChild⟩ := by
    intro j
    exact get_linkAfter (hsize₂ ▸ hps) (fun x hx => hsize₂ ▸ has x hx) j
  have hget : ∀ j, (f.append p c).get j =
      if p = j then { f₃.get p with lastChild := some c } else f₃.get j := by
    intro j
    rw [happend]
    exact f₃.get_modify p j _ (hsize₃ ▸ hps)
  refine .of_get ?_ ?_ ?_
  · rw [happend, size_modify, hsize₃]
  · rw [hget, if_neg hpc, hget₃, hget₂, if_pos rfl, if_neg hca, hnext]
    simp [Ne.symm hpc]
  · intro j hj
    have hj₂ : f₂.get j = f₁.get j := by rw [hget₂, if_neg (Ne.symm hj)]
    rw [hget]
    by_cases hjp : p = j
    · subst hjp
      rw [if_pos rfl, hget₃, hj₂]
      simp
    · rw [if_neg hjp, hget₃, hj₂]
      simp [Ne.symm hjp]

theorem notMem_without (q : Nat) : c ∉ without c kids q :=
  fun hmem => (mem_without.1 hmem).2 rfl

/-- The node moves to the place in front of `r`. -/
theorem Linked.insertBefore (h : Linked f kids) (hp : without c kids p = a ++ r :: b)
    (hc : c < f.size) :
    Linked (f.insertBefore r c) (Function.update (without c kids) p (a ++ c :: r :: b)) ∧
      (f.insertBefore r c).size = f.size ∧ ∀ j, (f.insertBefore r c).label j = f.label j := by
  have hd := h.detach c
  have hsize := size_detach h c
  have hins := insertBefore_inserted hd rfl hp notMem_without (hsize ▸ hc)
  refine ⟨hd.insert hp notMem_without (hd.bounds hp).1 (hsize ▸ hc) hins,
    hins.size.trans hsize, ?_⟩
  intro j
  exact (hins.label j).trans (label_detach h c j)

theorem Linked.append (h : Linked f kids) (hp : p < f.size) (hc : c < f.size) (hpc : p ≠ c) :
    Linked (f.append p c) (Function.update (without c kids) p (without c kids p ++ [c])) ∧
      (f.append p c).size = f.size ∧ ∀ j, (f.append p c).label j = f.label j := by
  have hd := h.detach c
  have hsize := size_detach h c
  have hins := append_inserted hd rfl notMem_without (hsize ▸ hp) (hsize ▸ hc) hpc
  refine ⟨hd.insert (List.append_nil _).symm notMem_without (hsize ▸ hp) (hsize ▸ hc) hins,
    hins.size.trans hsize, ?_⟩
  intro j
  exact (hins.label j).trans (label_detach h c j)

theorem get_of_size_le {i : Nat} (h : f.size ≤ i) : f.get i = default := by
  unfold get
  rw [Array.getD_eq_getD_getElem?, Array.getElem?_eq_none h]
  rfl

theorem size_create (l : Label) : (f.create l).1.size = f.size + 1 :=
  Array.size_push _

theorem Linked.create (h : Linked f kids) (l : Label) : Linked (f.create l).1 kids := by
  have hget : ∀ j, ((f.create l).1.get j).parent = (f.get j).parent ∧
      ((f.create l).1.get j).prev = (f.get j).prev ∧ ((f.create l).1.get j).next = (f.get j).next ∧
      ((f.create l).1.get j).firstChild = (f.get j).firstChild ∧
      ((f.create l).1.get j).lastChild = (f.get j).lastChild := by
    intro j
    rw [get_create]
    split
    · next hj =>
      rw [get_of_size_le (Nat.le_of_eq hj.symm)]
      exact ⟨rfl, rfl, rfl, rfl, rfl⟩
    · exact ⟨rfl, rfl, rfl, rfl, rfl⟩
  have hgrown : Linked ⟨f.nodes.push (Node.alone l)⟩ kids := by
    refine ⟨?_, h.nodup, ?_, ?_, ?_, ?_⟩
    · intro p i hi
      obtain ⟨hps, his⟩ := h.bound hi
      unfold size at *
      rw [Array.size_push]
      omega
    · intro p
      exact (hget p).2.2.2.1.trans (h.first p)
    · intro p
      exact (hget p).2.2.2.2.trans (h.last p)
    · intro p l₁ i l₂ hsplit
      obtain ⟨hparent, hprev, hnext, -, -⟩ := hget i
      obtain ⟨hparent', hprev', hnext'⟩ := h.links hsplit
      exact ⟨hparent.trans hparent', hprev.trans hprev', hnext.trans hnext'⟩
    · intro i hi
      obtain ⟨hparent, hprev, hnext, -, -⟩ := hget i
      obtain ⟨hparent', hprev', hnext'⟩ := h.orphan hi
      exact ⟨hparent.trans hparent', hprev.trans hprev', hnext.trans hnext'⟩
  exact hgrown

theorem Linked.notMem_size (h : Linked f kids) (q : Nat) : f.size ∉ kids q :=
  fun hmem => Nat.lt_irrefl _ (h.bound hmem).2

theorem Linked.kids_size (h : Linked f kids) : kids f.size = [] :=
  List.eq_nil_iff_forall_not_mem.2 fun _ hmem => Nat.lt_irrefl _ (h.bound hmem).1

theorem Linked.replaceMoved (h : Linked f kids) (hp : without c kids p = a ++ r :: b)
    (hcs : c < f.size) :
    Linked (f.replaceWith r c) (Function.update (without c kids) p (a ++ c :: b)) ∧
      (f.replaceWith r c).size = f.size ∧ ∀ j, (f.replaceWith r c).label j = f.label j := by
  have hrc : r ≠ c := by
    have hr : r ∈ without c kids p := by
      rw [hp]
      exact List.mem_append_right _ List.mem_cons_self
    exact (mem_without.1 hr).2
  obtain ⟨hins, hsize, hlabel⟩ := h.insertBefore hp hcs
  have hmid : Function.update (without c kids) p (a ++ c :: r :: b) p = (a ++ [c]) ++ r :: b := by
    rw [Function.update_self]
    simp
  have hout := hins.detach r
  rw [hins.without_eq hmid, Function.update_idem, List.append_assoc] at hout
  unfold Forest.replaceWith
  rw [if_neg hrc]
  refine ⟨hout, (size_detach hins r).trans hsize, ?_⟩
  intro j
  exact (label_detach hins r j).trans (hlabel j)

theorem Linked.replaceWith (h : Linked f kids) (hp : kids p = a ++ r :: b) (hc : ∀ q, c ∉ kids q)
    (hcs : c < f.size) :
    Linked (f.replaceWith r c) (Function.update kids p (a ++ c :: b)) ∧
      (f.replaceWith r c).size = f.size ∧ ∀ j, (f.replaceWith r c).label j = f.label j := by
  have hkids : without c kids = kids := funext fun q => without_of_notMem (hc q)
  have hreplaced := h.replaceMoved (by rw [hkids]; exact hp) hcs
  rwa [hkids] at hreplaced

/-- One child after the other moves out of the container in front of `r`. -/
theorem Linked.insertAll {container : Nat} {done rest : List Nat}
    (h : Linked f (Function.update (Function.update kids container rest) p (a ++ done ++ r :: b)))
    (hcp : container ≠ p) :
    Linked (rest.foldl (fun f child => f.insertBefore r child) f)
        (Function.update (Function.update kids container []) p (a ++ (done ++ rest) ++ r :: b)) ∧
      (rest.foldl (fun f child => f.insertBefore r child) f).size = f.size ∧
      ∀ j, (rest.foldl (fun f child => f.insertBefore r child) f).label j = f.label j := by
  induction rest generalizing f done with
  | nil =>
    rw [List.append_nil]
    exact ⟨h, rfl, fun _ => rfl⟩
  | cons c rest ih =>
    have hkids : Function.update (Function.update kids container (c :: rest)) p
        (a ++ done ++ r :: b) container = [] ++ c :: rest := by
      rw [Function.update_of_ne hcp, Function.update_self, List.nil_append]
    have hwithout : without c (Function.update (Function.update kids container (c :: rest)) p
        (a ++ done ++ r :: b)) =
        Function.update (Function.update kids container rest) p (a ++ done ++ r :: b) := by
      rw [h.without_eq hkids, Function.update_comm hcp.symm, Function.update_idem, List.nil_append]
    have hp : without c (Function.update (Function.update kids container (c :: rest)) p
        (a ++ done ++ r :: b)) p = (a ++ done) ++ r :: b := by
      rw [hwithout, Function.update_self]
    have hcs : c < f.size := by
      refine (h.bound (p := container) ?_).2
      rw [hkids]
      exact List.mem_cons_self
    obtain ⟨hins, hsize, hlabel⟩ := h.insertBefore hp hcs
    rw [hwithout, Function.update_idem] at hins
    have hdone : a ++ done ++ c :: r :: b = a ++ (done ++ [c]) ++ r :: b := by simp
    rw [hdone] at hins
    obtain ⟨hrest, hsize', hlabel'⟩ := ih hins
    have hall : done ++ [c] ++ rest = done ++ c :: rest := by simp
    rw [hall] at hrest
    refine ⟨hrest, hsize'.trans hsize, ?_⟩
    intro j
    exact (hlabel' j).trans (hlabel j)

/-- The children of a container take the place of a node. -/
theorem Linked.replaceWithChildren {container : Nat} (h : Linked f kids)
    (hp : kids p = a ++ r :: b) (hcp : container ≠ p) :
    Linked (f.replaceWithChildren r container)
        (Function.update (Function.update kids container []) p (a ++ kids container ++ b)) ∧
      (f.replaceWithChildren r container).size = f.size ∧
      ∀ j, (f.replaceWithChildren r container).label j = f.label j := by
  have hself : Function.update (Function.update kids container (kids container)) p
      (a ++ [] ++ r :: b) = kids := by
    rw [Function.update_eq_self, List.append_nil, ← hp, Function.update_eq_self]
  obtain ⟨hall, hsize, hlabel⟩ := Linked.insertAll (hself.symm ▸ h) hcp
  rw [List.nil_append] at hall
  have hmid : Function.update (Function.update kids container []) p
      (a ++ kids container ++ r :: b) p = (a ++ kids container) ++ r :: b := Function.update_self ..
  have hout := hall.detach r
  rw [hall.without_eq hmid, Function.update_idem] at hout
  unfold Forest.replaceWithChildren liftChildren
  dsimp only
  rw [h.children_eq]
  refine ⟨hout, (size_detach hall r).trans hsize, ?_⟩
  intro j
  exact (label_detach hall r j).trans (hlabel j)

end ScopedStyles.Forest
