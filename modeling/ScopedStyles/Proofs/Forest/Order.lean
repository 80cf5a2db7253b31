import ScopedStyles.Proofs.Forest.Joined
import ScopedStyles.Proofs.Forest.Layers

namespace ScopedStyles.Forest

open Selector

variable {f f' : Forest} {kids : Nat → List Nat} {rank rank' : Nat → Nat} {i j c e q s x : Nat}
  {a b l pending : List Nat} {P : Label → Bool}

theorem Graded.notMem_of_child (hg : Graded f kids rank) (hs : s ∈ kids e) : e ∉ kids s := by
  intro hmem
  have hlt := hg.above hmem
  have hlt' := hg.above hs
  omega

namespace Preorder

theorem visit (h : Linked f kids) (hl : Preorder f (kids i ++ pending) l) :
    Preorder f (i :: pending) (i :: l) :=
  .step (h.siblings_kids i) hl

theorem split {front back : List Nat} (hl : Preorder f (front ++ back) l) :
    ∃ l₁ l₂, l = l₁ ++ l₂ ∧ Preorder f front l₁ ∧ Preorder f back l₂ := by
  generalize hpending : front ++ back = pending at hl
  induction hl generalizing front with
  | done =>
    obtain ⟨rfl, rfl⟩ := List.append_eq_nil_iff.1 hpending
    exact ⟨[], [], rfl, .done, .done⟩
  | @step i cs pending l hc hrest ih =>
    cases front with
    | nil =>
      subst hpending
      exact ⟨[], i :: l, rfl, .done, .step hc hrest⟩
    | cons j front =>
      obtain ⟨rfl, rfl⟩ := List.cons.inj hpending
      obtain ⟨l₁, l₂, rfl, hfront, hback⟩ := ih (List.append_assoc cs front back)
      exact ⟨j :: l₁, l₂, rfl, .step hc hfront, hback⟩

theorem piece (h : Linked f kids) (hl : Preorder f pending l) (hq : q ∈ l) :
    ∃ l₁ m l₂, l = l₁ ++ m ++ l₂ ∧ Preorder f (kids q) m := by
  induction hl with
  | done => cases hq
  | @step i cs pending l hc hrest ih =>
    have hcs : cs = kids i := hc.unique (h.siblings_kids i)
    subst hcs
    rcases List.mem_cons.1 hq with rfl | hq
    · obtain ⟨m, l₂, rfl, hm, -⟩ := hrest.split
      exact ⟨[q], m, l₂, rfl, hm⟩
    · obtain ⟨l₁, m, l₂, rfl, hm⟩ := ih hq
      exact ⟨i :: l₁, m, l₂, rfl, hm⟩

end Preorder

/-- Whatever is below a node in front of `i` is met before `i`. -/
theorem descendants_split (h : Linked f kids) (hg : Graded f kids rank) (hq : Below kids root q)
    (hsplit : kids q = b ++ i :: a) :
    ∃ l₁ l₂, f.descendants root = l₁ ++ i :: l₂ ∧ ∀ x ∈ b, ∀ j, Below kids x j → j ∈ l₁ := by
  have hwalk := descendants_walk h hg root
  obtain ⟨l₁, m, l₂, hl, hm⟩ : ∃ l₁ m l₂, f.descendants root = l₁ ++ m ++ l₂ ∧
      Preorder f (kids q) m := by
    by_cases hroot : q = root
    · subst hroot
      exact ⟨[], _, [], (List.append_nil _).symm, hwalk⟩
    · exact hwalk.piece h ((mem_descendants h hg).2 ⟨hroot, hq⟩)
  rw [hsplit] at hm
  obtain ⟨mb, mi, rfl, hb, hi⟩ := hm.split
  cases hi with
  | @step _ cs _ li hc hrest =>
    refine ⟨l₁ ++ mb, li ++ l₂, ?_, ?_⟩
    · rw [hl]
      simp only [List.append_assoc, List.cons_append]
    · intro x hx j hj
      exact List.mem_append_right _ ((hb.mem_iff h).2 ⟨x, hx, hj⟩)

theorem notMem_after (h : Linked f kids) (hg : Graded f kids rank) (hq : Below kids root q)
    (hsplit : kids q = b ++ i :: a) {before after : List Nat}
    (hcollect : f.collect P = before ++ i :: after) (hx : x ∈ b) (hj : Below kids x j) :
    j ∉ after := by
  obtain ⟨l₁, l₂, hl, hfront⟩ := descendants_split h hg hq hsplit
  have hnodup := nodup_descendants h hg root
  have hi : P (f.label i) = true := by
    have hmem : i ∈ f.collect P := by
      rw [hcollect]
      exact List.mem_append_cons_self
    exact (List.mem_filter.1 hmem).2
  have hfilter : f.collect P =
      l₁.filter (fun k => P (f.label k)) ++ i :: l₂.filter fun k => P (f.label k) := by
    rw [collect_eq_filter, hl, List.filter_append, List.filter_cons, if_pos hi]
  have hnodup' : (f.collect P).Nodup := hnodup.filter _
  rw [hfilter] at hnodup' hcollect
  obtain ⟨-, rfl⟩ := split_unique hnodup' hcollect
  intro hafter
  rw [hl] at hnodup
  exact (List.nodup_append.1 hnodup).2.2 j (hfront x hx j hj) j
    (List.mem_cons_of_mem _ (List.mem_filter.1 hafter).1) rfl

theorem descendants_congr (h : Linked f kids) (hg : Graded f kids rank) (h' : Linked f' kids)
    (hg' : Graded f' kids rank') : f'.descendants root = f.descendants root := by
  have hsame : ∀ {pending l}, Preorder f pending l → Preorder f' pending l := by
    intro pending l hl
    induction hl with
    | done => exact .done
    | @step i cs pending l hc _ ih =>
      rw [hc.unique (h.siblings_kids i)] at ih
      exact ih.visit h'
  exact (descendants_walk h' hg' root).unique (hsame (descendants_walk h hg root))

theorem Preorder.exchange (h : Linked f kids) (h' : Linked f' (exchange i c kids))
    (hi : kids i = []) (hc : kids c = []) (hl : Preorder f pending l) :
    Preorder f' (pending.map fun x => if x = i then c else x)
      (l.map fun x => if x = i then c else x) := by
  induction hl with
  | done => exact .done
  | @step j cs pending l hcs _ ih =>
    rw [hcs.unique (h.siblings_kids j), List.map_append] at ih
    rw [List.map_cons, List.map_cons]
    apply Preorder.visit h'
    by_cases hji : j = i
    · subst hji
      rw [hi] at ih
      rw [if_pos rfl, Forest.exchange, hc]
      exact ih
    · rw [if_neg hji]
      exact ih

theorem descendants_exchange (h : Linked f kids) (hg : Graded f kids rank)
    (h' : Linked f' (exchange i c kids)) (hg' : Graded f' (exchange i c kids) rank')
    (hi : kids i = []) (hc : kids c = []) :
    f'.descendants root = (f.descendants root).map fun x => if x = i then c else x :=
  (descendants_walk h' hg' root).unique ((descendants_walk h hg root).exchange h h' hi hc)

theorem Preorder.splice (h : Linked f kids) (hg : Graded f kids rank)
    (h' : Linked f' (splice e s kids)) (hs : kids e = [s]) (hl : Preorder f pending l) :
    (s ∉ pending → Preorder f' (pending.flatMap fun x => if x = e then kids s else [x])
      (l.filter fun x => x ≠ e ∧ x ≠ s)) ∧
    ∀ rest, pending = s :: rest → s ∉ rest →
      Preorder f' (kids s ++ rest.flatMap fun x => if x = e then kids s else [x])
        (l.filter fun x => x ≠ e ∧ x ≠ s) := by
  have hse := mem_of_eq_singleton hs
  have hes := hg.notMem_of_child hse
  have hss : s ∉ kids s := fun hmem => Nat.lt_irrefl _ (hg.above hmem)
  -- The argument is pending just after its pseudo has been met, and at no other time.
  induction hl with
  | done => exact ⟨fun _ => .done, nofun⟩
  | @step j cs pending l hcs _ ih =>
    rw [hcs.unique (h.siblings_kids j)] at ih
    constructor
    · intro hnot
      have hjs : j ≠ s := fun heq => hnot (heq ▸ List.mem_cons_self)
      have hpending : s ∉ pending := fun hmem => hnot (List.mem_cons_of_mem j hmem)
      rw [List.flatMap_cons, List.filter_cons]
      by_cases hje : j = e
      · subst hje
        rw [if_pos rfl, if_neg (by simp)]
        exact ih.2 pending (congrArg (· ++ pending) hs) hpending
      · have hsnot : s ∉ kids j ++ pending := by
          rw [List.mem_append]
          rintro (hmem | hmem)
          · exact hje (h.unique hmem hse)
          · exact hpending hmem
        have hrest := ih.1 hsnot
        rw [List.flatMap_append] at hrest
        rw [if_neg hje, if_pos (by simpa using ⟨hje, hjs⟩)]
        apply Preorder.visit h'
        rwa [Forest.splice, if_neg hjs]
    · intro rest hrest hnot
      obtain ⟨rfl, rfl⟩ := List.cons.inj hrest
      have hsnot : j ∉ kids j ++ pending := by
        rw [List.mem_append]
        rintro (hmem | hmem)
        · exact hss hmem
        · exact hnot hmem
      have hwalk := ih.1 hsnot
      rw [List.flatMap_append, flatMap_splice_of_notMem hes] at hwalk
      rwa [List.filter_cons, if_neg (by simp)]

theorem descendants_splice (h : Linked f kids) (hg : Graded f kids rank)
    (h' : Linked f' (splice e s kids)) (hg' : Graded f' (splice e s kids) rank') (hs : kids e = [s])
    (hroot : s ≠ root) (hnot : s ∉ kids root) :
    f'.descendants root = (f.descendants root).filter fun x => x ≠ e ∧ x ≠ s := by
  have hwalk := ((descendants_walk h hg root).splice h hg h' hs).1 hnot
  have hwalk' := descendants_walk h' hg' root
  rw [splice, if_neg hroot.symm] at hwalk'
  exact hwalk'.unique hwalk

theorem collect_exchange (h : Linked f kids) (hg : Graded f kids rank)
    (h' : Linked f' (exchange i f.size kids)) (hg' : Graded f' (exchange i f.size kids) rank')
    (hi : kids i = []) (hlabel : ∀ j < f.size, f'.label j = f.label j)
    (hP : P (f'.label f.size) = false) :
    f'.collect P = (f.collect P).filter (· ≠ i) := by
  have hlt : ∀ j ∈ f.descendants root, j < f.size := by
    intro j hj
    obtain ⟨hroot, hbelow⟩ := (mem_descendants h hg).1 hj
    rcases hbelow.cases_child with rfl | ⟨q, -, hmem⟩
    · exact (hroot rfl).elim
    · exact (h.bound hmem).2
  rw [collect_eq_filter, collect_eq_filter, descendants_exchange h hg h' hg' hi h.kids_size]
  generalize f.descendants root = l at hlt
  induction l with
  | nil => rfl
  | cons j l ih =>
    obtain ⟨hj, hl⟩ := List.forall_mem_cons.1 hlt
    rw [List.map_cons, List.filter_cons, ih hl, List.filter_cons]
    by_cases hji : j = i
    · subst hji
      rw [if_pos rfl, hP, if_neg Bool.false_ne_true]
      split
      · rw [List.filter_cons_of_neg (by simp)]
      · rfl
    · rw [if_neg hji, hlabel j hj]
      split
      · rw [List.filter_cons_of_pos (by simpa using hji)]
      · rfl

/-- Neither the pseudo nor its argument is collected. -/
theorem collect_splice (h : Linked f kids) (hg : Graded f kids rank)
    (h' : Linked f' (splice e s kids)) (hg' : Graded f' (splice e s kids) rank') (hs : kids e = [s])
    (hroot : s ≠ root) (hnot : s ∉ kids root) (hlabel : ∀ j, f'.label j = f.label j)
    (he : P (f.label e) = false) (hargument : P (f.label s) = false) :
    f'.collect P = f.collect P := by
  rw [collect_eq_filter, collect_eq_filter, descendants_splice h hg h' hg' hs hroot hnot,
    List.filter_filter]
  apply List.filter_congr
  intro j _
  rw [hlabel]
  by_cases hP : P (f.label j) = true
  · rw [hP, Bool.true_and, decide_eq_true_iff]
    constructor
    · rintro rfl
      rw [he] at hP
      cases hP
    · rintro rfl
      rw [hargument] at hP
      cases hP
  · rw [Bool.eq_false_iff.2 hP, Bool.false_and]

end ScopedStyles.Forest
