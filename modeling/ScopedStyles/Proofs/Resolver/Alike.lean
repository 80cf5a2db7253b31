import ScopedStyles.Proofs.Forest.Rows
import ScopedStyles.Proofs.Resolver.SelectorLists
import ScopedStyles.Proofs.Resolver.Sightings

namespace ScopedStyles.Scope

open Selector Forest

variable {scope : String} {f f' : Forest} {p P : Pass} {row front back : List Nat} {i q s : Nat}

def selectorLabel : Label :=
  ⟨.selector, "", none⟩

def localLabel : Label :=
  ⟨.pseudo true, ":local", none⟩

theorem holder?_of_parents (hi : (f.get i).parent = some s) (hs : (f.get s).parent = some q) :
    holder? f i = if (f.label q).isPseudo then some (s, q) else none := by
  simp only [holder?, hi, hs, Option.bind_eq_bind, Option.bind_some]

/-- The row stands under a selector, the argument of an escape in another selector. -/
structure Held (f : Forest) (o q s : Nat) (row : List Nat) : Prop where
  lined : Lined f [o, q, s] row
  outer : f.label o = selectorLabel
  escape : f.label q = localLabel
  argument : f.label s = selectorLabel
  children : f.children q = [s]
  content : f.children s = row
  spliced : Spliced f q s (f.replaceWithChildren q s)

theorem held_of_framed (h : Framed f [selectorLabel, localLabel, selectorLabel] row) :
    ∃ o q s, Held f o q s row := by
  obtain ⟨above, hlined, hframe⟩ := h
  obtain ⟨o, q, s, rfl⟩ : ∃ o q s, above = [o, q, s] := by
    apply List.length_eq_three.1
    rw [← List.length_map f.label, hframe]
    rfl
  obtain ⟨-, ho, hq, hs⟩ := hlined.leads
  simp only [List.map_cons, List.map_nil, List.cons.injEq, and_true] at hframe
  obtain ⟨houter, hescape, hargument⟩ := hframe
  have hwellFormed := hlined.sound.wellFormed
  have hparent : (f.get q).parent = some o := hwellFormed.mem_children.1 (by simp [ho])
  have hheld : (f.get s).parent = some q := hwellFormed.mem_children.1 (by simp [hq])
  exact ⟨o, q, s, hlined, houter, hescape, hargument, hq, hs,
    hlined.sound.spliced (hparent ▸ Option.some_ne_none o) hheld⟩

theorem Held.opened {o : Nat} (h : Held f o q s row) :
    Framed (f.replaceWithChildren q s) [selectorLabel] row := by
  refine ⟨[o], h.lined.splice h.spliced, ?_⟩
  rw [List.map_singleton, h.spliced.label, h.outer]

structure Alone (f : Forest) (s : Nat) (row : List Nat) : Prop where
  lined : Lined f [s] row
  label : f.label s = selectorLabel
  top : f.children root = [s]
  content : f.children s = row

theorem alone_of_framed (h : Framed f [selectorLabel] row) : ∃ s, Alone f s row := by
  obtain ⟨above, hlined, hframe⟩ := h
  obtain ⟨s, rfl⟩ : ∃ s, above = [s] := by
    apply List.length_eq_one_iff.1
    rw [← List.length_map f.label, hframe]
    rfl
  obtain ⟨hroot, hs⟩ := hlined.leads
  exact ⟨s, hlined, List.singleton_inj.1 hframe, hroot, hs⟩

theorem barBefore?_eq_none {b : Nat} (hprev : (f.get i).prev = some b) (hb : ¬ IsBar (f.label b)) :
    barBefore? f i = none := by
  rw [barBefore?, hprev, Option.filter_some, if_neg (mt of_decide_eq_true hb)]

section Scoped

variable {c : Config}

theorem scopeAttribute_of_decide (hi : p.forest.isAttached i = true)
    (h : p.decide c i = (true, P)) :
    p.scopeAttribute c i =
      { P with
        forest := replaceByClass P.forest i (attributeClass c (P.forest.label i))
        elements := P.elements.record (attributeSighting c (owner P.forest i) (P.forest.label i))
        hashes := P.hashes.insert (attributeHash (P.forest.label i)) } := by
  rw [Pass.scopeAttribute, if_pos hi, h]

theorem scopeTag_of_decide (hi : p.forest.isAttached i = true)
    (h : Pass.decide c { p with forest := absorbBar p.forest i } i = (true, P)) :
    p.scopeTag c i =
      { P with
        forest := replaceByClass P.forest i
          ("__" ++ scopedName c (P.forest.label i).ns (P.forest.label i).value)
        elements := P.elements.record
          (.element (scopedName c (P.forest.label i).ns (P.forest.label i).value)) } := by
  rw [Pass.scopeTag, if_pos hi, h]

end Scoped

/-- The escape still holds the row, or it has been lifted and each node of the row is to be scoped. -/
inductive Escaped (P : Pass) (row : List Nat) : Prop
  | held (h : Framed P.forest [selectorLabel, localLabel, selectorLabel] row)
    (hlifted : P.lifted = [])
  | lifted (h : Framed P.forest [selectorLabel] row)
    (hlifted : ∀ i ∈ row, isScopable (P.forest.label i) = true → P.lifted.lookup i = some true)

namespace Escaped

theorem lined (h : Escaped P row) : ∃ above, Lined P.forest above row := by
  cases h with
  | held h =>
    obtain ⟨above, hlined, -⟩ := h
    exact ⟨above, hlined⟩
  | lifted h =>
    obtain ⟨above, hlined, -⟩ := h
    exact ⟨above, hlined⟩

theorem put (h : Escaped P (front ++ i :: back)) {l : Label} (hl : isScopable l = false)
    (hput : Exchanged P.forest i l f') :
    Escaped { P with forest := f' } (front ++ P.forest.size :: back) := by
  cases h with
  | held h hlifted => exact .held (h.exchange hput) hlifted
  | lifted h hlifted =>
    refine .lifted (h.exchange hput) ?_
    intro j hj hscopable
    rw [hput.label] at hscopable
    split at hscopable
    · rw [hl] at hscopable
      cases hscopable
    · next hne =>
      apply hlifted j _ hscopable
      rw [List.mem_append, List.mem_cons] at hj ⊢
      exact hj.imp_right fun h => .inr (h.resolve_left hne)

theorem relabel (h : Escaped P row) (hi : i ∈ row) {change : Label → Label}
    (hkind : ∀ l, (change l).kind = l.kind) (hput : Relabeled P.forest i change f') :
    Escaped { P with forest := f' } row := by
  cases h with
  | held h hlifted => exact .held (h.relabel hi hput) hlifted
  | lifted h hlifted =>
    refine .lifted (h.relabel hi hput) ?_
    intro j hj hscopable
    apply hlifted j hj
    rw [← hscopable, hput.label]
    apply isScopable_congr
    split
    · exact (hkind _).symm
    · rfl

theorem congr (h : Escaped P row) {P' : Pass} (hforest : P'.forest = P.forest)
    (hlifted : P'.lifted = P.lifted) : Escaped P' row := by
  cases h with
  | held h hempty => exact .held (hforest ▸ h) (hlifted ▸ hempty)
  | lifted h hknown =>
    rw [← hforest] at h hknown
    rw [← hlifted] at hknown
    exact .lifted h hknown

/-- A node of the row is scoped, and to find that out lifts the escape and changes nothing else. -/
theorem decide (h : Escaped P row) (hi : i ∈ row) (hscopable : isScopable (P.forest.label i) = true) :
    ∃ P', P.decide ⟨scope, .globally⟩ i = (true, P') ∧ Escaped P' row ∧
      (∀ j, P'.forest.label j = P.forest.label j) ∧ P'.elements = P.elements ∧
      P'.hashes = P.hashes := by
  cases h with
  | held h hlifted =>
    obtain ⟨o, q, s, h⟩ := held_of_framed h
    have hwellFormed := h.lined.sound.wellFormed
    have hparent : (P.forest.get i).parent = some s :=
      hwellFormed.mem_children.1 (h.content ▸ hi)
    have hparents : (P.forest.get s).parent = some q :=
      hwellFormed.mem_children.1 (h.children ▸ List.mem_singleton_self s)
    have hholder : holder? P.forest i = some (s, q) := by
      rw [holder?_of_parents hparent hparents, h.escape]
      rfl
    refine ⟨P.lift q s true, ?_, ?_, ?_, ?_, ?_⟩
    · rw [Pass.decide, hlifted, List.lookup_nil, hholder]
      dsimp only
      rw [h.escape]
      exact if_pos rfl
    all_goals rw [Pass.lift, h.children, if_pos List.length_singleton]
    · apply Escaped.lifted h.opened
      intro j hj _
      dsimp only
      rw [lookup_lifted, h.content, if_pos (List.mem_reverse.2 hj)]
    · exact h.spliced.label
  | lifted h hlifted =>
    refine ⟨P, ?_, .lifted h hlifted, fun _ => rfl, rfl, rfl⟩
    rw [Pass.decide, hlifted i hi hscopable]

end Escaped

/-- Both passes show the same row, and the local mode scopes all of it. -/
structure Alike (scope : String) (p P : Pass) (pairs : List (Nat × Nat)) : Prop where
  plain : Framed p.forest [selectorLabel] (pairs.map Prod.fst)
  undecided : p.lifted = []
  escaped : Escaped P (pairs.map Prod.snd)
  label : ∀ x ∈ pairs, P.forest.label x.2 = p.forest.label x.1
  inScope : ∀ x ∈ pairs, scopesNamespace ⟨scope, .locally⟩ (p.forest.label x.1).ns = true
  elements : P.elements = p.elements
  hashes : P.hashes = p.hashes

/-- All pairs but `x` are left, with nodes of the same kind. -/
def KeepsOthers (x : Nat × Nat) (p : Pass) (pairs : List (Nat × Nat)) (p' : Pass)
    (pairs' : List (Nat × Nat)) : Prop :=
  ∀ y ∈ pairs, y ≠ x → y ∈ pairs' ∧ (p'.forest.label y.1).kind = (p.forest.label y.1).kind

theorem KeepsOthers.of_kind {x : Nat × Nat} {pairs pairs' : List (Nat × Nat)} {p₁ p' : Pass}
    (h : KeepsOthers x p₁ pairs p' pairs')
    (hkind : ∀ j, (p₁.forest.label j).kind = (p.forest.label j).kind) :
    KeepsOthers x p pairs p' pairs' :=
  fun y hy hne => ⟨(h y hy hne).1, (h y hy hne).2.trans (hkind y.1)⟩

namespace Alike

variable {pairs : List (Nat × Nat)} {x y : Nat × Nat} {left right : List (Nat × Nat)}

theorem lined (h : Alike scope p P pairs) :
    (∃ above, Lined p.forest above (pairs.map Prod.fst)) ∧
      ∃ above, Lined P.forest above (pairs.map Prod.snd) := by
  obtain ⟨above, hlined, -⟩ := h.plain
  exact ⟨⟨above, hlined⟩, h.escaped.lined⟩

theorem fst_inj (h : Alike scope p P pairs) (hy : y ∈ pairs) (hx : x ∈ pairs) (heq : y.1 = x.1) :
    y = x := by
  obtain ⟨⟨above, hlined⟩, -⟩ := h.lined
  exact List.inj_on_of_nodup_map (List.nodup_append.1 hlined.nodup).2.1 hy hx heq

theorem snd_inj (h : Alike scope p P pairs) (hy : y ∈ pairs) (hx : x ∈ pairs) (heq : y.2 = x.2) :
    y = x := by
  obtain ⟨-, above, hlined⟩ := h.lined
  exact List.inj_on_of_nodup_map (List.nodup_append.1 hlined.nodup).2.1 hy hx heq

theorem isAttached (h : Alike scope p P pairs) (hx : x ∈ pairs) :
    p.forest.isAttached x.1 = true ∧ P.forest.isAttached x.2 = true := by
  obtain ⟨⟨above, hlined⟩, above', hlined'⟩ := h.lined
  exact ⟨hlined.isAttached (List.mem_map_of_mem hx), hlined'.isAttached (List.mem_map_of_mem hx)⟩

theorem lt (h : Alike scope p P pairs) (hx : x ∈ pairs) :
    x.1 < p.forest.size ∧ x.2 < P.forest.size := by
  obtain ⟨⟨above, hlined⟩, above', hlined'⟩ := h.lined
  exact ⟨hlined.lt (List.mem_map_of_mem hx), hlined'.lt (List.mem_map_of_mem hx)⟩

theorem decide_here (h : Alike scope p P pairs) (hx : x ∈ pairs) :
    p.decide ⟨scope, .locally⟩ x.1 = (true, p) := by
  obtain ⟨s, hs⟩ := alone_of_framed h.plain
  have hwellFormed := hs.lined.sound.wellFormed
  have hparent : (p.forest.get x.1).parent = some s :=
    hwellFormed.mem_children.1 (hs.content ▸ List.mem_map_of_mem hx)
  have hparents : (p.forest.get s).parent = some root :=
    hwellFormed.mem_children.1 (hs.top ▸ List.mem_singleton_self s)
  have hholder : holder? p.forest x.1 = none := by
    rw [holder?_of_parents hparent hparents, Label.isPseudo, hs.lined.sound.rooted.kind]
    rfl
  rw [Pass.decide, h.undecided, List.lookup_nil, hholder]
  exact congrArg (·, p) (h.inScope x hx)

theorem decide_there (h : Alike scope p P pairs) (hx : x ∈ pairs)
    (hscopable : isScopable (p.forest.label x.1) = true) :
    ∃ P', P.decide ⟨scope, .globally⟩ x.2 = (true, P') ∧ Alike scope p P' pairs := by
  rw [← h.label x hx] at hscopable
  obtain ⟨P', hdecide, hescaped, hlabel, helements, hhashes⟩ :=
    h.escaped.decide (List.mem_map_of_mem hx) hscopable
  refine ⟨P', hdecide, h.plain, h.undecided, hescaped, ?_, h.inScope, ?_, ?_⟩
  · intro y hy
    exact (hlabel y.2).trans (h.label y hy)
  · exact helements.trans h.elements
  · exact hhashes.trans h.hashes

theorem tell (h : Alike scope p P pairs) (elements : Registry) (hashes : TextSet) :
    Alike scope { p with elements := elements, hashes := hashes }
      { P with elements := elements, hashes := hashes } pairs :=
  ⟨h.plain, h.undecided, h.escaped.congr rfl rfl, h.label, h.inScope, rfl, rfl⟩

theorem put (h : Alike scope p P (left ++ x :: right)) (name : String) :
    Alike scope { p with forest := replaceByClass p.forest x.1 name }
      { P with forest := replaceByClass P.forest x.2 name }
      (left ++ (p.forest.size, P.forest.size) :: right) := by
  have hx : x ∈ left ++ x :: right := by simp
  obtain ⟨⟨above, hlined⟩, above', hlined'⟩ := h.lined
  have hput := hlined.sound.exchanged ⟨.className, name, none⟩
    (hlined.placed (List.mem_map_of_mem hx))
  have hput' := hlined'.sound.exchanged ⟨.className, name, none⟩
    (hlined'.placed (List.mem_map_of_mem hx))
  have hold : ∀ y ∈ left ++ (p.forest.size, P.forest.size) :: right,
      y = (p.forest.size, P.forest.size) ∨ y ∈ left ++ x :: right ∧
        (replaceByClass p.forest x.1 name).label y.1 = p.forest.label y.1 ∧
        (replaceByClass P.forest x.2 name).label y.2 = P.forest.label y.2 := by
    intro y hy
    rw [List.mem_append, List.mem_cons] at hy
    have hmem : y = (p.forest.size, P.forest.size) ∨ y ∈ left ++ x :: right := by
      rw [List.mem_append, List.mem_cons]
      tauto
    refine hmem.imp_right fun hmem => ⟨hmem, ?_, ?_⟩
    · exact (hput.label y.1).trans (if_neg (h.lt hmem).1.ne)
    · exact (hput'.label y.2).trans (if_neg (h.lt hmem).2.ne)
  have hplain := h.plain
  have hescaped := h.escaped
  rw [List.map_append, List.map_cons] at hplain hescaped
  refine ⟨?_, h.undecided, ?_, ?_, ?_, h.elements, h.hashes⟩
  · rw [List.map_append, List.map_cons]
    exact hplain.exchange hput
  · rw [List.map_append, List.map_cons]
    exact hescaped.put rfl hput'
  · intro y hy
    rcases hold y hy with rfl | ⟨hmem, hlabel, hlabel'⟩
    · exact (hput'.label _).trans ((if_pos rfl).trans ((hput.label _).trans (if_pos rfl)).symm)
    · exact hlabel'.trans ((h.label y hmem).trans hlabel.symm)
  · intro y hy
    rcases hold y hy with rfl | ⟨hmem, hlabel, -⟩
    · have hnew := (hput.label p.forest.size).trans (if_pos rfl)
      exact (congrArg (fun l : Label => scopesNamespace ⟨scope, .locally⟩ l.ns) hnew).trans rfl
    · exact (congrArg (fun l : Label => scopesNamespace ⟨scope, .locally⟩ l.ns) hlabel).trans
        (h.inScope y hmem)

theorem keepsOthers_put (h : Alike scope p P (left ++ x :: right)) (name : String) {p' : Pass}
    (hforest : p'.forest = replaceByClass p.forest x.1 name) :
    KeepsOthers x p (left ++ x :: right) p' (left ++ (p.forest.size, P.forest.size) :: right) := by
  obtain ⟨⟨above, hlined⟩, -⟩ := h.lined
  have hx : x ∈ left ++ x :: right := by simp
  have hput := hlined.sound.exchanged ⟨.className, name, none⟩
    (hlined.placed (List.mem_map_of_mem hx))
  intro y hy hne
  constructor
  · rw [List.mem_append, List.mem_cons] at hy ⊢
    exact hy.imp_right fun hy => .inr (hy.resolve_left hne)
  · have hlabel := (hput.label y.1).trans (if_neg (h.lt hy).1.ne)
    rw [hforest]
    exact congrArg Label.kind hlabel

theorem relabel (h : Alike scope p P pairs) (hx : x ∈ pairs) (change : Label → Label)
    (hkind : ∀ l, (change l).kind = l.kind)
    (hscope : scopesNamespace ⟨scope, .locally⟩ (change (p.forest.label x.1)).ns = true) :
    Alike scope
        { p with forest := p.forest.modify x.1 fun n => { n with label := change n.label } }
        { P with forest := P.forest.modify x.2 fun n => { n with label := change n.label } } pairs ∧
      ∀ j, ((p.forest.modify x.1 fun n => { n with label := change n.label }).label j).kind =
        (p.forest.label j).kind := by
  obtain ⟨⟨above, hlined⟩, above', hlined'⟩ := h.lined
  have hput := hlined.sound.relabeled (h.lt hx).1 change hkind
  have hput' := hlined'.sound.relabeled (h.lt hx).2 change hkind
  refine ⟨⟨h.plain.relabel (List.mem_map_of_mem hx) hput, h.undecided,
    h.escaped.relabel (List.mem_map_of_mem hx) hkind hput', ?_, ?_, h.elements, h.hashes⟩, ?_⟩
  · intro y hy
    rw [hput.label, hput'.label, h.label y hy]
    by_cases hyx : y = x
    · rw [hyx, if_pos rfl, if_pos rfl]
    · rw [if_neg (hyx ∘ h.fst_inj hy hx), if_neg (hyx ∘ h.snd_inj hy hx)]
  · intro y hy
    rw [hput.label]
    split
    · next heq =>
      rw [heq]
      exact hscope
    · exact h.inScope y hy
  · intro j
    rw [hput.label]
    split
    · exact hkind _
    · rfl

theorem prev (h : Alike scope p P (left ++ x :: right)) :
    (p.forest.get x.1).prev = left.getLast?.map Prod.fst ∧
      (P.forest.get x.2).prev = left.getLast?.map Prod.snd := by
  obtain ⟨⟨above, hlined⟩, above', hlined'⟩ := h.lined
  rw [List.map_append, List.map_cons] at hlined hlined'
  rw [hlined.prev, hlined'.prev, List.getLast?_map, List.getLast?_map]
  exact ⟨rfl, rfl⟩

theorem owner (h : Alike scope p P pairs) (hx : x ∈ pairs) :
    owner P.forest x.2 = owner p.forest x.1 := by
  obtain ⟨left, right, rfl⟩ := List.append_of_mem hx
  obtain ⟨⟨above, hlined⟩, above', hlined'⟩ := h.lined
  rw [List.map_append, List.map_cons] at hlined hlined'
  obtain ⟨q, hq⟩ := hlined.leads.holder
  obtain ⟨q', hq'⟩ := hlined'.leads.holder
  rw [owner_front hlined.sound.wellFormed.linked hq, owner_front hlined'.sound.wellFormed.linked hq',
    List.map_map, List.map_map]
  apply congrArg
  apply List.map_congr_left
  intro y hy
  exact h.label y (List.mem_append_left _ hy)

theorem absorbBar (h : Alike scope p P pairs) (hx : x ∈ pairs) :
    Alike scope { p with forest := Scope.absorbBar p.forest x.1 }
        { P with forest := Scope.absorbBar P.forest x.2 } pairs ∧
      ∀ j, ((Scope.absorbBar p.forest x.1).label j).kind = (p.forest.label j).kind := by
  obtain ⟨left, right, rfl⟩ := List.append_of_mem hx
  obtain ⟨hprev, hprev'⟩ := h.prev
  cases hlast : left.getLast? with
  | none =>
    rw [hlast, Option.map_none] at hprev hprev'
    have hnone : Scope.absorbBar p.forest x.1 = p.forest := by rw [Scope.absorbBar, hprev]
    have hnone' : Scope.absorbBar P.forest x.2 = P.forest := by rw [Scope.absorbBar, hprev']
    rw [hnone, hnone']
    exact ⟨h, fun _ => rfl⟩
  | some b =>
    rw [hlast, Option.map_some] at hprev hprev'
    have hb : b ∈ left ++ x :: right := List.mem_append_left _ (List.mem_of_getLast? hlast)
    by_cases hbar : IsBar (p.forest.label b.1)
    · have hbar' : IsBar (P.forest.label b.2) := h.label b hb ▸ hbar
      rw [absorbBar_of_some (barBefore?_eq_some.2 ⟨hprev, hbar⟩),
        absorbBar_of_some (barBefore?_eq_some.2 ⟨hprev', hbar'⟩)]
      obtain ⟨hvalue, hkind⟩ :=
        h.relabel hb (fun l => { l with value := "" }) (fun _ => rfl) (h.inScope b hb)
      obtain ⟨hmark, hkind'⟩ :=
        hvalue.relabel hx (fun l => { l with ns := some .bar }) (fun _ => rfl) rfl
      exact ⟨hmark, fun j => (hkind' j).trans (hkind j)⟩
    · have hbar' : ¬ IsBar (P.forest.label b.2) := h.label b hb ▸ hbar
      rw [absorbBar_of_none (barBefore?_eq_none hprev hbar),
        absorbBar_of_none (barBefore?_eq_none hprev' hbar')]
      exact ⟨h, fun _ => rfl⟩

theorem scopeAttribute (h : Alike scope p P pairs) (hx : x ∈ pairs)
    (hattribute : (p.forest.label x.1).isAttribute = true) :
    ∃ pairs', Alike scope (p.scopeAttribute ⟨scope, .locally⟩ x.1)
        (P.scopeAttribute ⟨scope, .globally⟩ x.2) pairs' ∧
      KeepsOthers x p pairs (p.scopeAttribute ⟨scope, .locally⟩ x.1) pairs' := by
  obtain ⟨hattached, hattached'⟩ := h.isAttached hx
  obtain ⟨P', hdecide, hP⟩ := h.decide_there hx (isScopable_of_isAttribute hattribute)
  rw [scopeAttribute_of_decide hattached (h.decide_here hx),
    scopeAttribute_of_decide hattached' hdecide, hP.owner hx, hP.label x hx, hP.elements, hP.hashes]
  obtain ⟨left, right, rfl⟩ := List.append_of_mem hx
  exact ⟨_, (hP.put _).tell _ _, hP.keepsOthers_put _ rfl⟩

theorem scopeTag (h : Alike scope p P pairs) (hx : x ∈ pairs)
    (htag : (p.forest.label x.1).isTag = true) :
    ∃ pairs', Alike scope (p.scopeTag ⟨scope, .locally⟩ x.1)
        (P.scopeTag ⟨scope, .globally⟩ x.2) pairs' ∧
      KeepsOthers x p pairs (p.scopeTag ⟨scope, .locally⟩ x.1) pairs' := by
  obtain ⟨hattached, hattached'⟩ := h.isAttached hx
  obtain ⟨habsorbed, hkind⟩ := h.absorbBar hx
  have hscopable : isScopable ((Scope.absorbBar p.forest x.1).label x.1) = true := by
    rw [isScopable_congr (hkind x.1)]
    exact isScopable_of_isTag htag
  obtain ⟨P', hdecide, hP⟩ := habsorbed.decide_there hx hscopable
  rw [scopeTag_of_decide hattached (habsorbed.decide_here hx),
    scopeTag_of_decide hattached' hdecide, hP.label x hx, hP.elements, hP.hashes]
  obtain ⟨left, right, rfl⟩ := List.append_of_mem hx
  exact ⟨_, (hP.put _).tell _ _, (hP.keepsOthers_put _ rfl).of_kind hkind⟩

end Alike

end ScopedStyles.Scope
