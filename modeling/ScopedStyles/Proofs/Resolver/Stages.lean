import ScopedStyles.Proofs.Forest.WellFormed
import ScopedStyles.Proofs.Selector.Moves
import ScopedStyles.Scope.Resolver

namespace ScopedStyles.Scope

open Selector Forest

variable {c : Config} {m : Memory} {f g : Forest} {p : Pass} {i : Nat}

inductive OwnerWalk (f : Forest) : Option Nat → Option String → Prop where
  | done : OwnerWalk f none none
  | found {i : Nat} (hi : (f.label i).kind = .tag ∨ (f.label i).kind = .idName) :
      OwnerWalk f (some i) (some (f.label i).value)
  | stopped {i : Nat} (hi : ¬ ((f.label i).kind = .tag ∨ (f.label i).kind = .idName))
      (hcombinator : (f.label i).isCombinator = true) : OwnerWalk f (some i) none
  | step {i : Nat} {found : Option String}
      (hi : ¬ ((f.label i).kind = .tag ∨ (f.label i).kind = .idName))
      (hcombinator : ¬ (f.label i).isCombinator = true) (h : OwnerWalk f (f.get i).prev found) :
      OwnerWalk f (some i) found

theorem owner_walk {kids : Nat → List Nat} (h : Linked f kids) {q fuel : Nat} {l₁ l₂ : List Nat}
    (hq : kids q = l₁ ++ l₂) (hfuel : l₁.length ≤ fuel) :
    OwnerWalk f l₁.getLast? (ownerFrom f fuel l₁.getLast?) := by
  induction l₁ using List.reverseRecOn generalizing l₂ fuel with
  | nil =>
    cases fuel with
    | zero => exact .done
    | succ fuel => exact .done
  | append_singleton l₁ i ih =>
    rw [List.length_append, List.length_singleton] at hfuel
    cases fuel with
    | zero => omega
    | succ fuel =>
      rw [List.append_assoc] at hq
      obtain ⟨-, hprev, -⟩ := h.links hq
      have hrest := ih hq (Nat.le_of_succ_le_succ hfuel)
      rw [List.getLast?_append, List.getLast?_singleton, Option.some_or]
      unfold ownerFrom
      dsimp only
      split
      · next hi => exact .found hi
      · next hi =>
        split
        · next hcombinator => exact .stopped hi hcombinator
        · next hcombinator =>
          rw [hprev]
          exact .step hi hcombinator (hprev.symm ▸ hrest)

theorem owner_walk_from (h : WellFormed f) (i : Nat) :
    OwnerWalk f (f.get i).prev (ownerFrom f f.size (f.get i).prev) := by
  cases hparent : (f.get i).parent with
  | none =>
    have hprev : (f.get i).prev = none := by
      refine (h.linked.orphan ?_).2.1
      intro q hmem
      rw [h.linked.parent_iff.2 hmem] at hparent
      cases hparent
    rw [hprev]
    have hnone : ownerFrom f f.size none = none := by
      cases f.size with
      | zero => rfl
      | succ n => rfl
    rw [hnone]
    exact .done
  | some q =>
    obtain ⟨l₁, l₂, hsplit⟩ := List.append_of_mem (h.linked.parent_iff.1 hparent)
    obtain ⟨-, hprev, -⟩ := h.linked.links hsplit
    have hlength := h.linked.length_kids q
    rw [hsplit, List.length_append] at hlength
    rw [hprev]
    exact owner_walk h.linked hsplit (by omega)

/-- A walk over the list `l` that begins in the state `s` comes to `i` in the state `t`. -/
def Reaches {σ : Type} (visit : σ → Nat → σ) (s : σ) (l : List Nat) (t : σ) (i : Nat) : Prop :=
  ∃ done rest, l = done ++ i :: rest ∧ t = done.foldl visit s

def tagsPass (c : Config) (m : Memory) (f : Forest) : Pass :=
  Pass.scopeAttributes c ⟨m.refresh, f⟩

def escapesOf (c : Config) (m : Memory) (f : Forest) : Forest :=
  ((tagsPass c m f).scopeTags c).forest

def AtAttribute (c : Config) (m : Memory) (f : Forest) (p : Pass) (i : Nat) : Prop :=
  Reaches (Pass.scopeAttribute c) ⟨m.refresh, f⟩ (f.collect Label.isAttribute) p i

def AtTag (c : Config) (m : Memory) (f : Forest) (p : Pass) (i : Nat) : Prop :=
  Reaches (Pass.scopeTag c) (tagsPass c m f) ((tagsPass c m f).forest.collect Label.isTag) p i

def AtEscape (c : Config) (m : Memory) (f g : Forest) (i : Nat) : Prop :=
  Reaches unwrap (escapesOf c m f) ((escapesOf c m f).collect (isEscape c)) g i

/-- While `f` is scoped, a decision is asked for `i` in the pass `p`. -/
inductive Judges (c : Config) (m : Memory) (f : Forest) : Pass → Nat → Prop where
  | first {p : Pass} {i : Nat} (h : AtAttribute c m f p i) (hi : p.forest.isAttached i = true) :
      Judges c m f p i
  | second {p : Pass} {i : Nat} (h : AtTag c m f p i) (hi : p.forest.isAttached i = true) :
      Judges c m f { p with forest := absorbBar p.forest i } i

structure Lifts (c : Config) (p : Pass) (i selector pseudo : Nat) : Prop where
  undecided : p.lifted.lookup i = none
  held : holder? p.forest i = some (selector, pseudo)
  escape : (p.forest.label pseudo).value = c.mode.escape
  single : (p.forest.children pseudo).length = 1

/-- While `f` is scoped, a node `child` is put in front of `reference` in the forest `g`. -/
inductive Inserts (c : Config) (m : Memory) (f : Forest) : Forest → Nat → Nat → Prop where
  | lift {p : Pass} {i selector pseudo child : Nat} {done rest : List Nat}
      (h : Judges c m f p i) (hlift : Lifts c p i selector pseudo)
      (hchild : p.forest.children selector = done ++ child :: rest) :
      Inserts c m f (done.foldl (fun g j => g.insertBefore pseudo j) p.forest) pseudo child
  | replace {p q : Pass} {i : Nat} (h : Judges c m f p i) (hdecided : p.decide c i = (true, q))
      (name : String) :
      Inserts c m f (q.forest.create ⟨.className, name, none⟩).1 i q.forest.size
  | unwrap {g : Forest} {selector pseudo child : Nat} {done rest : List Nat}
      (h : AtEscape c m f g pseudo) (hattached : g.isAttached pseudo = true)
      (hsingle : g.children pseudo = [selector]) (hchild : g.children selector = done ++ child :: rest) :
      Inserts c m f (done.foldl (fun g j => g.insertBefore pseudo j) g) pseudo child

/-- The forests in which scoping `f` takes a walk or puts a node, and the one that it leaves. -/
inductive Stage (c : Config) (m : Memory) (f : Forest) : Forest → Prop where
  | attributes : Stage c m f f
  | atAttribute {p : Pass} {i : Nat} (h : AtAttribute c m f p i) : Stage c m f p.forest
  | tags : Stage c m f (tagsPass c m f).forest
  | atTag {p : Pass} {i : Nat} (h : AtTag c m f p i) : Stage c m f p.forest
  | asked {p : Pass} {i : Nat} (h : Judges c m f p i) : Stage c m f p.forest
  | decided {p : Pass} {i : Nat} (h : Judges c m f p i) : Stage c m f (p.decide c i).2.forest
  | escapes : Stage c m f (escapesOf c m f)
  | atEscape {g : Forest} {i : Nat} (h : AtEscape c m f g i) : Stage c m f g
  | inserting {g : Forest} {reference child : Nat} (h : Inserts c m f g reference child) :
      Stage c m f g
  | done : Stage c m f (scopeForest c m f).forest

theorem Reaches.mem {σ : Type} {visit : σ → Nat → σ} {s t : σ} {l : List Nat}
    (h : Reaches visit s l t i) : i ∈ l := by
  obtain ⟨done, rest, rfl, -⟩ := h
  exact List.mem_append_right _ List.mem_cons_self

theorem foldl_keeps {σ : Type} {v : σ → Nat → σ} {P : σ → Prop} {s : σ} {l : List Nat}
    (hv : ∀ s, ∀ i ∈ l, P s → P (v s i)) (hs : P s) :
    P (l.foldl v s) ∧ ∀ t i, Reaches v s l t i → P t := by
  have hpart : ∀ done rest, l = done ++ rest → P (done.foldl v s) := by
    intro done
    induction done using List.reverseRecOn with
    | nil => exact fun _ _ => hs
    | append_singleton done i ih =>
      intro rest hl
      rw [List.append_assoc] at hl
      rw [List.foldl_concat]
      apply hv _ i _ (ih _ hl)
      rw [hl]
      exact List.mem_append_right _ List.mem_cons_self
  refine ⟨hpart l [] (List.append_nil l).symm, ?_⟩
  rintro t i ⟨done, rest, hl, rfl⟩
  exact hpart done (i :: rest) hl

theorem decide_cases (c : Config) (p : Pass) (i : Nat) :
    (p.decide c i).2.forest = p.forest ∨ ∃ selector pseudo, Lifts c p i selector pseudo ∧
      (p.decide c i).2.forest = p.forest.replaceWithChildren pseudo selector := by
  unfold Pass.decide
  split
  · exact .inl rfl
  · next hundecided =>
    split
    · next selector pseudo hheld =>
      dsimp only
      split
      · next hescape =>
        unfold Pass.lift
        split
        · next hsingle => exact .inr ⟨selector, pseudo, ⟨hundecided, hheld, hescape, hsingle⟩, rfl⟩
        · exact .inl rfl
      · split
        · exact .inl rfl
        · exact .inl rfl
    · exact .inl rfl

theorem holder?_eq_some {selector pseudo : Nat} (h : holder? f i = some (selector, pseudo)) :
    (f.get i).parent = some selector ∧ (f.get selector).parent = some pseudo ∧
      (f.label pseudo).isPseudo = true := by
  obtain ⟨selector', hselector, hrest⟩ := Option.bind_eq_some_iff.1 h
  obtain ⟨pseudo', hpseudo, hsome⟩ := Option.bind_eq_some_iff.1 hrest
  split at hsome
  · next hispseudo =>
    cases hsome
    exact ⟨hselector, hpseudo, hispseudo⟩
  · cases hsome

theorem Lifts.placed {selector pseudo : Nat} (hlift : Lifts c p i selector pseudo)
    (h : Sound p.forest) (hi : Below p.forest.children root i) :
    (p.forest.get pseudo).parent ≠ none ∧ (p.forest.get selector).parent = some pseudo ∧
      (p.forest.get i).parent = some selector := by
  obtain ⟨hselector, hpseudo, hispseudo⟩ := holder?_eq_some hlift.held
  refine ⟨?_, hpseudo, hselector⟩
  apply h.placed (h.below_parent (h.below_parent hi hselector) hpseudo)
  intro heq
  subst heq
  rw [Label.isPseudo, h.rooted.kind] at hispseudo
  cases hispseudo

theorem decide_sound (h : Sound p.forest) (hi : Below p.forest.children root i) (hne : i ≠ root) :
    Sound (p.decide c i).2.forest ∧ ((p.decide c i).2.forest.get i).parent ≠ none := by
  rcases decide_cases c p i with hsame | ⟨selector, pseudo, hlift, hforest⟩
  · rw [hsame]
    exact ⟨h, h.placed hi hne⟩
  · obtain ⟨hplaced, hpseudo, hselector⟩ := hlift.placed h hi
    obtain ⟨hsound, hmoved⟩ := h.replaceWithChildren hplaced hpseudo
    rw [hforest]
    refine ⟨hsound, ?_⟩
    rw [hmoved i hselector]
    exact hplaced

theorem scopeAttribute_sound (h : Sound p.forest) (hne : i ≠ root) :
    Sound (p.scopeAttribute c i).forest := by
  unfold Pass.scopeAttribute
  split
  · next hattached =>
    obtain ⟨hsound, hplaced⟩ := decide_sound (c := c) h (h.wellFormed.isAttached_iff.1 hattached) hne
    generalize p.decide c i = d at hsound hplaced
    obtain ⟨decision, q⟩ := d
    cases decision with
    | false => exact hsound
    | true => exact hsound.replaceByNew _ hplaced
  · exact h

theorem absorbBar_sound (h : Sound f) (hi : Below f.children root i) :
    Sound (absorbBar f i) ∧ Below (absorbBar f i).children root i := by
  unfold absorbBar
  split
  · next b hprev =>
    split
    · have hprev' : ∃ q, i ∈ f.children q := by
        by_contra hnone
        rw [(h.wellFormed.linked.orphan fun q hq => hnone ⟨q, hq⟩).2.1] at hprev
        cases hprev
      obtain ⟨q, hmem⟩ := hprev'
      obtain ⟨l₁, l₂, hsplit⟩ := List.append_of_mem hmem
      obtain ⟨-, his, hbs, -⟩ := h.wellFormed.linked.bounds hsplit
      have hb : b < f.size := by
        apply hbs
        rw [← (h.wellFormed.linked.links hsplit).2.1, hprev]
        exact rfl
      obtain ⟨hcleared, hbelow⟩ := h.relabel (j := i) hb (fun l => { l with value := "" })
        fun _ => rfl
      obtain ⟨hmarked, hbelow'⟩ := hcleared.relabel (i := i) (j := i) (by rwa [size_modify])
        (fun l => { l with ns := some .bar }) fun _ => rfl
      exact ⟨hmarked, (hbelow' root).2 ((hbelow root).2 hi)⟩
    · exact ⟨h, hi⟩
  · exact ⟨h, hi⟩

theorem scopeTag_sound (h : Sound p.forest) (hne : i ≠ root) :
    Sound (p.scopeTag c i).forest := by
  unfold Pass.scopeTag
  split
  · next hattached =>
    obtain ⟨habsorbed, hi⟩ := absorbBar_sound h (h.wellFormed.isAttached_iff.1 hattached)
    obtain ⟨hsound, hplaced⟩ := decide_sound (c := c)
      (p := { p with forest := absorbBar p.forest i }) habsorbed hi hne
    generalize Pass.decide c { p with forest := absorbBar p.forest i } i = d at hsound hplaced
    obtain ⟨decision, q⟩ := d
    cases decision with
    | false => exact hsound
    | true => exact hsound.replaceByNew _ hplaced
  · exact h

theorem unwrap_placed {pseudo selector : Nat} (h : Sound f) (hne : pseudo ≠ root)
    (hattached : f.isAttached pseudo = true) (hsingle : f.children pseudo = [selector]) :
    (f.get pseudo).parent ≠ none ∧ (f.get selector).parent = some pseudo := by
  refine ⟨h.placed (h.wellFormed.isAttached_iff.1 hattached) hne, ?_⟩
  apply h.wellFormed.mem_children.1
  rw [hsingle]
  exact List.mem_singleton_self selector

theorem unwrap_sound (h : Sound f) (hne : i ≠ root) : Sound (unwrap f i) := by
  unfold unwrap
  split
  · next hattached =>
    split
    · next selector hsingle =>
      obtain ⟨hplaced, hselector⟩ := unwrap_placed h hne hattached hsingle
      exact (h.replaceWithChildren hplaced hselector).1
    · exact h
  · exact h

theorem first_phase_sound (c : Config) (m : Memory) (h : Sound f) :
    Sound (tagsPass c m f).forest ∧ ∀ p i, AtAttribute c m f p i → Sound p.forest ∧ i ≠ root := by
  obtain ⟨hdone, hreached⟩ := foldl_keeps (P := fun p : Pass => Sound p.forest)
    (v := Pass.scopeAttribute c) (s := ⟨m.refresh, f⟩) (l := f.collect Label.isAttribute)
    (fun p i hi hp => scopeAttribute_sound hp (h.ne_root_of_collect hi)) h
  exact ⟨hdone, fun p i hi => ⟨hreached p i hi, h.ne_root_of_collect hi.mem⟩⟩

theorem second_phase_sound (c : Config) (m : Memory) (h : Sound f) :
    Sound (escapesOf c m f) ∧ ∀ p i, AtTag c m f p i → Sound p.forest ∧ i ≠ root := by
  have htags := (first_phase_sound c m h).1
  obtain ⟨hdone, hreached⟩ := foldl_keeps (P := fun p : Pass => Sound p.forest)
    (v := Pass.scopeTag c) (s := tagsPass c m f)
    (l := (tagsPass c m f).forest.collect Label.isTag)
    (fun p i hi hp => scopeTag_sound hp (htags.ne_root_of_collect hi)) htags
  exact ⟨hdone, fun p i hi => ⟨hreached p i hi, htags.ne_root_of_collect hi.mem⟩⟩

theorem last_phase_sound (c : Config) (m : Memory) (h : Sound f) :
    Sound (scopeForest c m f).forest ∧ ∀ g i, AtEscape c m f g i → Sound g ∧ i ≠ root := by
  have hescapes := (second_phase_sound c m h).1
  obtain ⟨hdone, hreached⟩ := foldl_keeps (P := Sound) (v := unwrap) (s := escapesOf c m f)
    (l := (escapesOf c m f).collect (isEscape c))
    (fun g i hi hg => unwrap_sound hg (hescapes.ne_root_of_collect hi)) hescapes
  exact ⟨hdone, fun g i hi => ⟨hreached g i hi, hescapes.ne_root_of_collect hi.mem⟩⟩

theorem Judges.sound (hjudges : Judges c m f p i) (h : Sound f) :
    Sound p.forest ∧ Below p.forest.children root i ∧ i ≠ root := by
  cases hjudges with
  | first hreaches hi =>
    obtain ⟨hp, hne⟩ := (first_phase_sound c m h).2 _ _ hreaches
    exact ⟨hp, hp.wellFormed.isAttached_iff.1 hi, hne⟩
  | second hreaches hi =>
    obtain ⟨hp, hne⟩ := (second_phase_sound c m h).2 _ _ hreaches
    obtain ⟨habsorbed, hbelow⟩ := absorbBar_sound hp (hp.wellFormed.isAttached_iff.1 hi)
    exact ⟨habsorbed, hbelow, hne⟩

/-- No lift, replacement or unwrapping puts a node next to one without a parent, next to itself or
below itself. -/
theorem Inserts.guarded {reference child : Nat} (hinserts : Inserts c m f g reference child)
    (h : Sound f) : Sound g ∧ Guarded g reference child := by
  cases hinserts with
  | lift hjudges hlift hchild =>
    obtain ⟨hp, hi, -⟩ := hjudges.sound h
    obtain ⟨hplaced, hpseudo, -⟩ := hlift.placed hp hi
    exact hp.guarded_child hplaced hpseudo hchild
  | @replace p q i hjudges hdecided name =>
    obtain ⟨hp, hi, hne⟩ := hjudges.sound h
    obtain ⟨hq, hplaced⟩ := decide_sound (c := c) hp hi hne
    rw [hdecided] at hq hplaced
    exact ⟨hq.create _, hq.wellFormed.guarded_new _ hplaced⟩
  | unwrap hreaches hattached hsingle hchild =>
    obtain ⟨hg, hne⟩ := (last_phase_sound c m h).2 _ _ hreaches
    obtain ⟨hplaced, hselector⟩ := unwrap_placed hg hne hattached hsingle
    exact hg.guarded_child hplaced hselector hchild

theorem Stage.sound (hstage : Stage c m f g) (h : Sound f) : Sound g := by
  cases hstage with
  | attributes => exact h
  | atAttribute hreaches => exact ((first_phase_sound c m h).2 _ _ hreaches).1
  | tags => exact (first_phase_sound c m h).1
  | atTag hreaches => exact ((second_phase_sound c m h).2 _ _ hreaches).1
  | asked hjudges => exact (hjudges.sound h).1
  | decided hjudges =>
    obtain ⟨hp, hi, hne⟩ := hjudges.sound h
    exact (decide_sound hp hi hne).1
  | escapes => exact (second_phase_sound c m h).1
  | atEscape hreaches => exact ((last_phase_sound c m h).2 _ _ hreaches).1
  | inserting hinserts => exact (hinserts.guarded h).1
  | done => exact (last_phase_sound c m h).1

/-- A parsed tree is laid out as a well-formed forest. Whatever well-formed forest is scoped, every
forest on the way is well-formed, so that all walks end, nodes are put in front of others only where
that makes no cycle, and in the forest that is left every node below the root is met exactly once. -/
theorem transform_wellFormed (r : Resolver) :
    (∀ text t, parse text = .ok t →
      WellFormed (ofTree t) ∧ Rooted (ofTree t) ∧ (ofTree t).tree root = t) ∧
    ∀ f, WellFormed f → Rooted f →
      (∀ g, Stage r.config r.toMemory f g → WellFormed g ∧ Rooted g ∧ WalksEnd g ∧
        ∀ i, OwnerWalk g (g.get i).prev (ownerFrom g g.size (g.get i).prev)) ∧
      (∀ g reference child, Inserts r.config r.toMemory f g reference child →
        (g.get reference).parent ≠ none ∧ reference ≠ child ∧
          ¬ Below g.children child reference) ∧
      WellFormed (r.transform f).1 ∧ ((r.transform f).1.descendants root).Nodup ∧
      ∀ i, i ∈ (r.transform f).1.descendants root ↔
        i ≠ root ∧ Below (r.transform f).1.children root i := by
  refine ⟨?_, ?_⟩
  · intro text t h
    obtain ⟨selectors, rfl, -⟩ := parse_eq_ok_iff.1 h
    obtain ⟨hsound, -, htree⟩ := ofTree_sound selectors
    exact ⟨hsound.wellFormed, hsound.rooted, htree⟩
  · intro f hf hr
    have h : Sound f := ⟨hf, hr⟩
    have hout : WellFormed (r.transform f).1 := (Stage.done.sound h).wellFormed
    refine ⟨?_, ?_, hout, nodup_descendants hout.linked hout.graded root, ?_⟩
    · intro g hstage
      have hg := hstage.sound h
      exact ⟨hg.wellFormed, hg.rooted, hg.wellFormed.walksEnd, owner_walk_from hg.wellFormed⟩
    · intro g reference child hinserts
      have hguard := (hinserts.guarded h).2
      exact ⟨hguard.placed, hguard.other, hguard.notBelow⟩
    · intro i
      exact hout.mem_descendants

end ScopedStyles.Scope
