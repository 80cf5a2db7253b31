import Mathlib.Algebra.GroupWithZero.Nat
import Mathlib.Data.List.Count
import Mathlib.Data.List.Nodup
import ScopedStyles.Style.Composer

namespace ScopedStyles.Style

structure Template where
  fragments : List String
  interpolations : List Interpolation

def Template.call (t : Template) (c : Compiler) (e : Engine) : Except Error Token × Engine :=
  css c e t.fragments t.interpolations

/-- What can be done with a composer. A component may be left without a style. -/
inductive Action where
  | component (args : List String) (template : Option Template)
  | style (template : Template)
  | passthrough (args : List String)

/-- An action with the answer to its style call. -/
inductive Event where
  | declared (args : List String) (answer : Option (Except Error Token))
  | styled (answer : Except Error Token)
  | passed (args : List String)

namespace Composer

def perform (c : Compiler) (s : Composer) : Action → Composer
  | .component args none => s.component args
  | .component args (some t) => (finish c (s.component args) t.fragments t.interpolations).2
  | .style t => (style c s t.fragments t.interpolations).2
  | .passthrough args => s.passthrough args

def session (c : Compiler) (s : Composer) (actions : List Action) : Composer :=
  actions.foldl (perform c) s

def observe (c : Compiler) (s : Composer) : Action → Event
  | .component args none => .declared args none
  | .component args (some t) =>
    .declared args (some (finish c (s.component args) t.fragments t.interpolations).1)
  | .style t => .styled (style c s t.fragments t.interpolations).1
  | .passthrough args => .passed args

def observed (c : Compiler) (s : Composer) : List Action → List Event
  | [] => []
  | a :: rest => observe c s a :: observed c (perform c s a) rest

end Composer

namespace Action

def args? : Action → Option (List String)
  | component args _ => some args
  | style _ => none
  | passthrough _ => none

def template? : Action → Option Template
  | component _ template => template
  | style template => some template
  | passthrough _ => none

/-- The event of an action whose style call is made directly on an engine. -/
def event (c : Compiler) (e : Engine) : Action → Event
  | component args template => .declared args (template.map fun t => (t.call c e).1)
  | style t => .styled (t.call c e).1
  | passthrough args => .passed args

def engine (c : Compiler) (e : Engine) (a : Action) : Engine :=
  a.template?.elim e fun t => (t.call c e).2

end Action

def events (c : Compiler) (e : Engine) : List Action → List Event
  | [] => []
  | a :: rest => a.event c e :: events c (a.engine c e) rest

namespace Event

def token? (answer : Option (Except Error Token)) : Option Token :=
  answer.bind Except.toOption

def count : Event → Nat
  | declared _ _ => 1
  | styled _ => 0
  | passed _ => 0

/-- The component that is declared, with the number `n`, and the answer to its style call. -/
def component? (n : Nat) : Event → Option (Pending × Option (Except Error Token))
  | declared args answer => some (⟨n, args⟩, answer)
  | styled _ => none
  | passed _ => none

def alone? : Event → Option Token
  | declared _ _ => none
  | styled answer => answer.toOption
  | passed _ => none

def built? : Event → Option (Option (List String))
  | declared _ answer => (token? answer).map fun _ => none
  | styled _ => none
  | passed args => some (some args)

/-- What is registered, for a component with the number `n`. -/
def entries (n : Nat) : Event → List (Option Pending × Option Token)
  | declared args answer =>
    (some ⟨n, args⟩, none) :: (token? answer).toList.map fun token => (some ⟨n, args⟩, some token)
  | styled answer => answer.toOption.toList.map fun token => (none, some token)
  | passed _ => []

end Event

def components (n : Nat) : List Event → List (Pending × Option (Except Error Token))
  | [] => []
  | ev :: rest => (ev.component? n).toList ++ components (n + ev.count) rest

def registered (n : Nat) : List Event → List (Option Pending × Option Token)
  | [] => []
  | ev :: rest => ev.entries n ++ registered (n + ev.count) rest

def Record.note (r : Record) (ev : Event) : Record :=
  ⟨r.created + ev.count, r.entries ++ ev.entries (r.created + 1), r.components ++ ev.built?.toList⟩

variable {c : Compiler} {e : Engine} {s : Composer} {t : Template} {p : Pending} {token : Token}
  {evs : List Event} {n : Nat}

namespace Composer

/-- A style call on a composer is the direct one, and is recorded if it succeeds. -/
theorem finish_spec (c : Compiler) (s : Composer) (t : Template) :
    (finish c s t.fragments t.interpolations).1 = (t.call c s.engine).1 ∧
      (finish c s t.fragments t.interpolations).2.engine = (t.call c s.engine).2 ∧
      (finish c s t.fragments t.interpolations).2.record =
        ((t.call c s.engine).1.toOption.elim s.record fun token =>
          (if s.pending.isSome then s.record.build none else s.record).register s.pending
            (some token)) := by
  simp only [finish, Template.call]
  generalize css c s.engine t.fragments t.interpolations = result
  obtain ⟨answer, e⟩ := result
  cases answer with
  | error error => exact ⟨rfl, rfl, rfl⟩
  | ok token => exact ⟨rfl, rfl, rfl⟩

theorem perform_spec (c : Compiler) (s : Composer) (a : Action) :
    observe c s a = a.event c s.engine ∧ (perform c s a).engine = a.engine c s.engine ∧
      (perform c s a).record = s.record.note (a.event c s.engine) := by
  cases a with
  | component args template =>
    cases template with
    | none => exact ⟨rfl, rfl, congrArg (Record.mk _ _) (List.append_nil _).symm⟩
    | some t =>
      obtain ⟨hanswer, hengine, hrecord⟩ := finish_spec c (s.component args) t
      refine ⟨congrArg (Event.declared args ∘ some) hanswer, hengine, hrecord.trans ?_⟩
      change (t.call c s.engine).1.toOption.elim _ _ =
        s.record.note (.declared args (some (t.call c s.engine).1))
      cases (t.call c s.engine).1 with
      | error error => simp [component, Record.note, Record.register, Event.entries, Event.built?,
          Event.token?, Event.count, Except.toOption]
      | ok token => simp [component, Record.note, Record.register, Record.build, Event.entries,
          Event.built?, Event.token?, Event.count, Except.toOption]
  | style t =>
    obtain ⟨hanswer, hengine, hrecord⟩ := finish_spec c { s with pending := none } t
    refine ⟨congrArg Event.styled hanswer, hengine, hrecord.trans ?_⟩
    change (t.call c s.engine).1.toOption.elim _ _ = s.record.note (.styled (t.call c s.engine).1)
    cases (t.call c s.engine).1 with
    | error error => simp [Record.note, Event.entries, Event.built?, Event.count, Except.toOption]
    | ok token => simp [Record.note, Record.register, Event.entries, Event.built?, Event.count,
        Except.toOption]
  | passthrough args => simp [observe, perform, passthrough, Action.engine, Action.template?, Action.event,
      Record.note, Record.build, Event.entries, Event.built?, Event.count]

theorem session_spec (c : Compiler) (s : Composer) (actions : List Action) :
    observed c s actions = events c s.engine actions ∧ (session c s actions).engine =
        (actions.filterMap Action.template?).foldl (fun e t => (t.call c e).2) s.engine ∧
      (session c s actions).record = (events c s.engine actions).foldl Record.note s.record := by
  induction actions generalizing s with
  | nil => exact ⟨rfl, rfl, rfl⟩
  | cons a actions ih =>
    obtain ⟨hanswer, hengine, hrecord⟩ := perform_spec c s a
    obtain ⟨hanswers, hlater, hrecords⟩ := ih (perform c s a)
    rw [hengine] at hanswers hlater hrecords
    rw [hrecord] at hrecords
    refine ⟨?_, hlater.trans ?_, hrecords⟩
    · rw [observed, events, hanswer, hanswers]
    · rw [List.filterMap_cons, Action.engine]
      cases a.template? with
      | none => rfl
      | some t => rfl

end Composer

theorem foldl_note (r : Record) (evs : List Event) :
    (evs.foldl Record.note r).entries = r.entries ++ registered (r.created + 1) evs ∧
      (evs.foldl Record.note r).components = r.components ++ evs.filterMap Event.built? := by
  induction evs generalizing r with
  | nil => simp [registered]
  | cons ev evs ih =>
    obtain ⟨hentries, hcomponents⟩ := ih (r.note ev)
    rw [List.foldl_cons, hentries, hcomponents, registered, List.filterMap_cons]
    constructor
    · rw [Record.note, List.append_assoc, Nat.add_right_comm]
    · cases hbuilt : ev.built? with
      | none => simp [Record.note, hbuilt]
      | some built => simp [Record.note, hbuilt]

section Registered

theorem components_ids (n : Nat) (evs : List Event) :
    (components n evs).map (fun d => d.1.id) = List.range' n (evs.map Event.count).sum := by
  induction evs generalizing n with
  | nil => rfl
  | cons ev evs ih =>
    rw [components, List.map_append, ih, List.map_cons, List.sum_cons]
    cases ev with
    | declared args answer =>
      rw [Event.count, Nat.add_comm 1, List.range'_succ]
      rfl
    | styled answer =>
      rw [Event.count, Nat.zero_add]
      rfl
    | passed args =>
      rw [Event.count, Nat.zero_add]
      rfl

theorem registered_waiting (n : Nat) (evs : List Event) :
    (registered n evs).filter (fun x => x.2.isNone) =
      (components n evs).map fun d => (some d.1, none) := by
  induction evs generalizing n with
  | nil => rfl
  | cons ev evs ih =>
    rw [registered, components, List.filter_append, List.map_append, ih]
    congr 1
    cases ev with
    | declared args answer => simp [Event.entries, Event.component?]
    | styled answer => simp [Event.entries, Event.component?]
    | passed args => rfl

theorem registered_styled (n : Nat) (evs : List Event) :
    (registered n evs).filter (fun x => x.1.isSome && x.2.isSome) =
      (components n evs).filterMap fun d =>
        (Event.token? d.2).map fun token => (some d.1, some token) := by
  induction evs generalizing n with
  | nil => rfl
  | cons ev evs ih =>
    rw [registered, components, List.filter_append, List.filterMap_append, ih]
    congr 1
    cases ev with
    | declared args answer =>
      cases htoken : Event.token? answer with
      | none => simp [Event.entries, Event.component?, htoken]
      | some token => simp [Event.entries, Event.component?, htoken]
    | styled answer => simp [Event.entries, Event.component?]
    | passed args => rfl

theorem registered_alone (n : Nat) (evs : List Event) :
    (registered n evs).filter (fun x => x.1.isNone) =
      (evs.filterMap Event.alone?).map fun token => (none, some token) := by
  induction evs generalizing n with
  | nil => rfl
  | cons ev evs ih =>
    rw [registered, List.filter_append, ih, List.filterMap_cons]
    cases ev with
    | declared args answer => simp [Event.entries, Event.alone?]
    | styled answer =>
      cases hanswer : answer.toOption with
      | none => simp [Event.entries, Event.alone?, hanswer]
      | some token => simp [Event.entries, Event.alone?, hanswer]
    | passed args => simp [Event.entries, Event.alone?]

theorem Event.entries_behind {ev : Event} {before after : List (Option Pending × Option Token)}
    (h : ev.entries n = before ++ (some p, some token) :: after) : before = [(some p, none)] := by
  cases ev with
  | declared args answer =>
    cases before with
    | nil => cases (List.cons.inj h).1
    | cons first before =>
      obtain ⟨rfl, hstyled⟩ := List.cons.inj h
      cases htoken : token? answer with
      | none =>
        rw [htoken] at hstyled
        cases List.append_ne_nil_of_right_ne_nil before (List.cons_ne_nil _ after) hstyled.symm
      | some own =>
        rw [htoken] at hstyled
        cases before with
        | nil =>
          cases (List.cons.inj hstyled).1
          rfl
        | cons second before =>
          cases List.append_ne_nil_of_right_ne_nil before (List.cons_ne_nil _ after)
            (List.cons.inj hstyled).2.symm
  | styled answer =>
    have hmem : (some p, some token) ∈ (styled answer).entries n := by
      rw [h]
      exact List.mem_append_right _ List.mem_cons_self
    obtain ⟨own, -, hown⟩ := List.mem_map.1 hmem
    cases hown
  | passed args =>
    cases List.append_ne_nil_of_right_ne_nil before (List.cons_ne_nil _ after) h.symm

theorem registered_behind {before after : List (Option Pending × Option Token)}
    (h : registered n evs = before ++ (some p, some token) :: after) :
    before.getLast? = some (some p, none) := by
  induction evs generalizing n before with
  | nil => cases List.append_ne_nil_of_right_ne_nil before (List.cons_ne_nil _ after) h.symm
  | cons ev evs ih =>
    rcases List.append_eq_append_iff.1 h with ⟨between, rfl, hrest⟩ | ⟨between, hentries, hrest⟩
    · rw [List.getLast?_append, ih hrest]
      rfl
    · cases between with
      | nil =>
        have hfirst : registered (n + ev.count) evs = [] ++ (some p, some token) :: after := hrest.symm
        cases ih hfirst
      | cons first between =>
        cases (List.cons.inj hrest).1
        rw [Event.entries_behind hentries]
        rfl

end Registered

theorem components_events (c : Compiler) (e : Engine) (actions : List Action) (n : Nat) :
    (components n (events c e actions)).map Prod.fst =
      (actions.filterMap Action.args?).mapIdx fun k args => ⟨n + k, args⟩ := by
  induction actions generalizing e n with
  | nil => rfl
  | cons a actions ih =>
    rw [events, components, List.map_append, ih]
    cases a with
    | component args template =>
      have hlater : ∀ k, n + 1 + k = n + (k + 1) := fun k => Nat.add_right_comm n 1 k
      simp [Action.event, Event.component?, Event.count, Action.args?, List.mapIdx_cons, hlater]
    | style t => rfl
    | passthrough args => rfl

theorem count_waiting (n : Nat) (evs : List Event) (p : Pending) :
    (registered n evs).count (some p, none) =
      if p ∈ (components n evs).map Prod.fst then 1 else 0 := by
  have hids : (((components n evs).map Prod.fst).map Pending.id).Nodup := by
    rw [List.map_map]
    exact (components_ids n evs).symm ▸ List.nodup_range'
  have hinjective : Function.Injective fun q : Pending => ((some q, none) : Option Pending × Option Token) :=
    fun q q' h => Option.some.inj (Prod.mk.inj h).1
  have hwaiting : (registered n evs).filter (fun x => x.2.isNone) =
      ((components n evs).map Prod.fst).map fun q => (some q, none) := by
    rw [registered_waiting, List.map_map]
    rfl
  rw [← List.count_filter (p := fun x => x.2.isNone) rfl, hwaiting,
    List.count_map_of_injective _ _ hinjective, hids.of_map.count]

theorem mem_styled_iff (n : Nat) (evs : List Event) (p : Pending) (token : Token) :
    (some p, some token) ∈ registered n evs ↔ (p, some (.ok token)) ∈ components n evs := by
  have hstyled : (some p, some token) ∈ registered n evs ↔
      (some p, some token) ∈ (registered n evs).filter fun x => x.1.isSome && x.2.isSome := by
    rw [List.mem_filter]
    exact ⟨fun h => ⟨h, rfl⟩, fun h => h.1⟩
  rw [hstyled, registered_styled, List.mem_filterMap]
  constructor
  · rintro ⟨⟨q, answer⟩, hmem, hd⟩
    obtain ⟨own, htoken, hown⟩ := Option.map_eq_some_iff.1 hd
    obtain ⟨rfl, rfl⟩ : q = p ∧ own = token := by simpa using hown
    obtain ⟨result, rfl, hresult⟩ := Option.bind_eq_some_iff.1 htoken
    cases result with
    | error error => cases hresult
    | ok own =>
      cases hresult
      exact hmem
  · intro hmem
    exact ⟨_, hmem, rfl⟩

theorem countP_styled_le (n : Nat) (evs : List Event) (k : Nat) :
    (registered n evs).countP (fun x => x.2.isSome && x.1.any (·.id == k)) ≤ 1 := by
  have hids : ((components n evs).map fun d => d.1.id).Nodup :=
    (components_ids n evs).symm ▸ List.nodup_range'
  calc (registered n evs).countP (fun x => x.2.isSome && x.1.any (·.id == k))
      = ((registered n evs).filter fun x => x.1.isSome && x.2.isSome).countP
          fun x => x.1.any (·.id == k) := by
        rw [List.countP_filter]
        apply List.countP_congr
        rintro ⟨p?, token?⟩ -
        cases p? <;> cases token? <;> simp
    _ = (components n evs).countP fun d => (Event.token? d.2).isSome && d.1.id == k := by
        rw [registered_styled, List.countP_filterMap]
        apply List.countP_congr
        rintro ⟨p, answer⟩ -
        cases Event.token? answer <;> simp
    _ ≤ (components n evs).countP fun d => d.1.id == k :=
        List.countP_mono_left fun d _ h => (Bool.and_eq_true_iff.1 h).2
    _ = ((components n evs).map fun d => d.1.id).count k := by
        rw [List.count, List.countP_map]
        rfl
    _ ≤ 1 := List.nodup_iff_count_le_one.1 hids k

namespace Composer

/-- After any session on a new composer, with failed style calls in it: each style call was answered as it
is when made directly, and the engine is as these calls leave it. The components are numbered in order, and
each is registered once without a style; it is registered with a style exactly if its own style call
succeeded, once and directly behind; each style that succeeded without a component is registered once on
its own. What was built are the components that were passed through and, without arguments, those whose
style call succeeded. A style call that fails changes nothing in the record. -/
theorem session_paired (c : Compiler) (e : Engine) (actions : List Action) :
    observed c (new e) actions = events c e actions ∧
      (session c (new e) actions).engine =
        (actions.filterMap Action.template?).foldl (fun e t => (t.call c e).2) e ∧
      (components 1 (events c e actions)).map Prod.fst =
        (actions.filterMap Action.args?).mapIdx (fun k args => ⟨1 + k, args⟩) ∧
      (∀ p, (session c (new e) actions).record.entries.count (some p, none) =
        if p ∈ (components 1 (events c e actions)).map Prod.fst then 1 else 0) ∧
      (∀ p token, (some p, some token) ∈ (session c (new e) actions).record.entries ↔
        (p, some (.ok token)) ∈ components 1 (events c e actions)) ∧
      (∀ n, (session c (new e) actions).record.entries.countP
        (fun x => x.2.isSome && x.1.any (·.id == n)) ≤ 1) ∧
      (∀ p token before after, (session c (new e) actions).record.entries =
        before ++ (some p, some token) :: after → before.getLast? = some (some p, none)) ∧
      (session c (new e) actions).record.entries.filter (fun x => x.1.isNone) =
        ((events c e actions).filterMap Event.alone?).map (fun token => (none, some token)) ∧
      (session c (new e) actions).record.components =
        (events c e actions).filterMap Event.built? ∧
      ∀ (s : Composer) (t : Template) (error : Error),
        ((finish c s t.fragments t.interpolations).1 = .error error →
          (finish c s t.fragments t.interpolations).2.record = s.record) ∧
        ((style c s t.fragments t.interpolations).1 = .error error →
          (style c s t.fragments t.interpolations).2.record = s.record) := by
  obtain ⟨hanswers, hengine, hrecord⟩ := session_spec c (new e) actions
  obtain ⟨hentries, hbuilt⟩ := foldl_note (new e).record (events c e actions)
  have hregistered : (session c (new e) actions).record.entries =
      registered 1 (events c e actions) := by
    rw [hrecord]
    exact hentries
  have hkept : ∀ (s : Composer) (t : Template) (error : Error),
      (finish c s t.fragments t.interpolations).1 = .error error →
        (finish c s t.fragments t.interpolations).2.record = s.record := by
    intro s t error herror
    obtain ⟨hanswer, -, hfinish⟩ := finish_spec c s t
    rw [hfinish, ← hanswer, herror]
    rfl
  rw [hregistered, hrecord]
  refine ⟨hanswers, hengine, components_events c e actions 1, count_waiting 1 _, mem_styled_iff 1 _,
    countP_styled_le 1 _, ?_, registered_alone 1 _, hbuilt, ?_⟩
  · intro p token before after hsplit
    exact registered_behind hsplit
  · intro s t error
    exact ⟨hkept s t error, hkept { s with pending := none } t error⟩

end Composer

end ScopedStyles.Style
