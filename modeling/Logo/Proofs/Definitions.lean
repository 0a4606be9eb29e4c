import Logo.Proofs.Finished

/-!
The definitions that statements execute, and what the registry holds after them: primitives
keep their names, and any other name stands for the procedure that was defined by it last.
-/
namespace Logo

structure Definition where
  name : String
  parameters : List String
  body : List Instruction

def Effect.definition? : Effect → Option Definition
  | .define name parameters body => some ⟨name, parameters, body⟩
  | .move _ | .turn _ | .wait _ | .pen _ | .clear => none

/-- The definitions that performing the instruction executes, in order. Those in loops and in
called procedures are there as often as they are executed. -/
def Instruction.definitions (bindings : Bindings) (i : Instruction) : List Definition :=
  match i.expand bindings with
  | .ok effects => effects.filterMap Effect.definition?
  | .error _ => []

theorem mem_expandEach {body : List Instruction} {bindings : Bindings} {effects : List Effect}
    (h : expandEach body bindings = .ok effects) {effect : Effect} (among : effect ∈ effects) :
    ∃ i ∈ body, ∃ part, i.expand bindings = .ok part ∧ effect ∈ part := by
  induction body generalizing effects with
  | nil =>
      cases h
      cases among
  | cons i rest ih =>
      rw [expandEach] at h
      obtain ⟨first, expanded, h⟩ := ok_of_bind h
      obtain ⟨others, expanded', same⟩ := ok_of_bind h
      cases same
      rcases List.mem_append.mp among with among | among
      · exact ⟨i, List.mem_cons_self, first, expanded, among⟩
      · obtain ⟨j, later, part, found⟩ := ih expanded' among
        exact ⟨j, List.mem_cons_of_mem _ later, part, found⟩

namespace Instruction

theorem mem_expand_loop {command : Command} {times : Value} {block : Block}
    {bindings : Bindings} {effects : List Effect}
    (h : expand ⟨command, .loop (some times) (some block)⟩ bindings = .ok effects)
    {effect : Effect} (among : effect ∈ effects) :
    ∃ i ∈ block.instructions, ∃ part, i.expand bindings = .ok part ∧ effect ∈ part := by
  rw [expand_loop] at h
  obtain ⟨n, _, h⟩ := ok_of_bind h
  split at h
  · cases h
    cases among
  · cases expanded : expandEach block.instructions bindings with
    | error fault =>
        rw [expanded] at h
        cases h
    | ok pass =>
        rw [expanded] at h
        cases h
        obtain ⟨copy, copies, among⟩ := List.mem_flatten.mp among
        rw [(List.mem_replicate.mp copies).2] at among
        exact mem_expandEach expanded among

/-- What a finished instruction defines is finished and has a name that is allowed. -/
theorem Finished.definition_of_mem {allowed : String → Prop} {i : Instruction}
    (h : i.Finished allowed) {bindings : Bindings} {effects : List Effect}
    (expanded : i.expand bindings = .ok effects) {effect : Effect} (among : effect ∈ effects)
    {d : Definition} (defines : effect.definition? = some d) :
    allowed d.name ∧ ∀ j ∈ d.body, j.Finished allowed := by
  induction h generalizing bindings effects with
  | ready kind =>
      rcases kind with rfl | rfl | rfl <;> cases expanded <;>
        cases List.mem_singleton.mp among <;> cases defines
  | single kind =>
      obtain ⟨n, _, expanded⟩ := ok_of_bind expanded
      rcases kind with rfl | rfl | rfl | rfl | rfl <;> cases expanded <;>
        cases List.mem_singleton.mp among <;> cases defines
  | loop inner ih =>
      obtain ⟨j, held, part, expanded, among⟩ := mem_expand_loop expanded among
      exact ih j held expanded among
  | define free inner ih =>
      cases expanded
      cases List.mem_singleton.mp among
      cases defines
      exact ⟨free, inner⟩
  | @call p arguments count inner ih =>
      obtain ⟨serial, name, parameters, body⟩ := p
      rw [expand] at expanded
      obtain ⟨scope, _, expanded⟩ := ok_of_bind expanded
      obtain ⟨j, held, part, expanded, among⟩ := mem_expandEach expanded among
      exact ih j held expanded among

theorem Finished.definitions {allowed : String → Prop} {i : Instruction}
    (h : i.Finished allowed) {bindings : Bindings} {d : Definition}
    (among : d ∈ i.definitions bindings) : allowed d.name ∧ ∀ j ∈ d.body, j.Finished allowed := by
  unfold Instruction.definitions at among
  split at among
  · next effects expanded =>
      obtain ⟨effect, found, defines⟩ := List.mem_filterMap.mp among
      exact h.definition_of_mem expanded found defines
  · cases among

end Instruction

theorem Dictionary.get?_ofList_eq_some {α : Type} {entries : List (String × α)}
    (h : (entries.map Prod.fst).Nodup) {name : String} {value : α} :
    (ofList entries).get? name = some value ↔ (name, value) ∈ entries := by
  rw [get?_ofList, ← List.mem_reverse, List.lookup_eq_some_iff]
  constructor
  · rintro ⟨before, after, split, _⟩
    simp [split]
  · intro among
    obtain ⟨before, after, split⟩ := List.append_of_mem among
    refine ⟨before, after, split, ?_⟩
    have apart : (entries.map Prod.fst).reverse.Nodup := by
      rw [List.Nodup, List.pairwise_reverse]
      exact h.imp Ne.symm
    rw [← List.map_reverse, split, List.map_append, List.nodup_append] at apart
    intro entry earlier
    have other := apart.2.2 entry.1 (List.mem_map_of_mem earlier) name List.mem_cons_self
    simpa using Ne.symm other

namespace Registry

/-- Executes definitions in order. -/
def defineAll (registry : Registry) (ds : List Definition) : Except Fault Registry :=
  ds.foldlM (fun registry d => registry.define d.name d.parameters d.body) registry

variable {registry later : Registry} {ds : List Definition}

theorem defineAll_cons {d : Definition} (h : registry.defineAll (d :: ds) = .ok later) :
    ∃ between, registry.define d.name d.parameters d.body = .ok between ∧
      between.defineAll ds = .ok later := by
  rw [defineAll, List.foldlM_cons] at h
  exact ok_of_bind h

theorem defineAll_append (registry : Registry) (ds more : List Definition) :
    registry.defineAll (ds ++ more) =
      registry.defineAll ds >>= fun between => between.defineAll more :=
  List.foldlM_append

theorem defineAll_split {more : List Definition}
    (h : registry.defineAll (ds ++ more) = .ok later) :
    ∃ between, registry.defineAll ds = .ok between ∧ between.defineAll more = .ok later := by
  rw [defineAll_append] at h
  exact ok_of_bind h

/-- What every definition keeps is kept by all of them. -/
theorem defineAll_invariant {P : Registry → Prop} (h : registry.defineAll ds = .ok later)
    (initial : P registry)
    (step : ∀ d ∈ ds, ∀ before after : Registry,
      before.define d.name d.parameters d.body = .ok after → P before → P after) : P later := by
  induction ds generalizing registry with
  | nil =>
      cases h
      exact initial
  | cons d ds ih =>
      obtain ⟨between, defined, rest⟩ := defineAll_cons h
      exact ih rest (step d List.mem_cons_self registry between defined initial)
        fun e later => step e (List.mem_cons_of_mem _ later)

theorem made_defineAll (h : registry.defineAll ds = .ok later) :
    later.made = registry.made + ds.length := by
  induction ds generalizing registry with
  | nil =>
      cases h
      rfl
  | cons d ds ih =>
      obtain ⟨between, defined, rest⟩ := defineAll_cons h
      have one : between.made = registry.made + 1 := by rw [(define_eq_ok defined).2]
      rw [ih rest, one, List.length_cons]
      omega

theorem isProtected_defineAll (h : registry.defineAll ds = .ok later) (name : String) :
    later.isProtected name = registry.isProtected name :=
  defineAll_invariant h (P := fun other => other.isProtected name = registry.isProtected name) rfl
    fun _ _ _ _ defined kept => (isProtected_define defined name).trans kept

theorem lookup_defineAll_of_apart (h : registry.defineAll ds = .ok later) {name : String}
    (apart : ∀ d ∈ ds, Text.lowercase d.name ≠ Text.lowercase name) :
    later.lookup name = registry.lookup name := by
  refine defineAll_invariant h (P := fun other => other.lookup name = registry.lookup name) rfl ?_
  intro d among before after defined kept
  rw [lookup_define defined, if_neg (Ne.symm (apart d among)), kept]

theorem lookup_defineAll_of_protected (h : registry.defineAll ds = .ok later) {name : String}
    (taken : registry.isProtected name = true) : later.lookup name = registry.lookup name := by
  have kept : later.lookup name = registry.lookup name ∧ later.isProtected name = true := by
    refine defineAll_invariant h
      (P := fun other => other.lookup name = registry.lookup name ∧ other.isProtected name = true)
      ⟨rfl, taken⟩ ?_
    rintro d _ before after defined ⟨same, taken⟩
    -- a definition of this name would have been refused
    have other : Text.lowercase name ≠ Text.lowercase d.name := by
      intro equal
      have free := (define_eq_ok defined).1
      rw [isProtected, lookup, ← equal] at free
      rw [isProtected, lookup, free] at taken
      cases taken
    rw [lookup_define defined, if_neg other, isProtected_define defined]
    exact ⟨same, taken⟩
  exact kept.1

/-- Of several definitions of a name the last one counts. Its serial number is the number of
definitions before it. -/
theorem lookup_defineAll {before after : List Definition} {d : Definition}
    (h : registry.defineAll (before ++ d :: after) = .ok later) {name : String}
    (named : Text.lowercase d.name = Text.lowercase name)
    (last : ∀ e ∈ after, Text.lowercase e.name ≠ Text.lowercase name) :
    later.lookup name =
      some (.procedure ⟨registry.made + before.length, d.name, d.parameters, d.body⟩) := by
  obtain ⟨between, first, rest⟩ := defineAll_split h
  obtain ⟨between', defined, rest⟩ := defineAll_cons rest
  rw [lookup_defineAll_of_apart rest last, lookup_define defined, if_pos named.symm,
    made_defineAll first]

theorem Finished.defineAll {allowed : String → Prop} (known : registry.Finished allowed)
    (h : registry.defineAll ds = .ok later)
    (finished : ∀ d ∈ ds, ∀ i ∈ d.body, i.Finished allowed) : later.Finished allowed := by
  refine defineAll_invariant h (P := Registry.Finished allowed) known ?_
  intro d among before after defined known key p found
  rw [(define_eq_ok defined).2, Dictionary.get?_insert] at found
  split at found
  · cases found
    exact finished d among
  · exact known key p found

theorem get?_primitives {key : String} {command : Command} :
    primitives.commands.get? key = some command ↔
      ∃ p : Primitive, key ∈ p.names ∧ command = .primitive p := by
  have names : (Primitive.all.flatMap fun p => p.names.map (·, Command.primitive p)).map Prod.fst =
      Primitive.all.flatMap Primitive.names := by
    simp [List.map_flatMap, Function.comp_def]
  rw [primitives, Dictionary.get?_ofList_eq_some (names ▸ Primitive.nodup_names)]
  simp only [List.mem_flatMap, Primitive.mem_all, true_and, List.mem_map, Prod.mk.injEq]
  constructor
  · rintro ⟨p, name, among, rfl, rfl⟩
    exact ⟨p, among, rfl⟩
  · rintro ⟨p, among, rfl⟩
    exact ⟨p, key, among, rfl, rfl⟩

theorem finished_primitives (allowed : String → Prop) : primitives.Finished allowed := by
  intro key p found
  obtain ⟨_, _, same⟩ := get?_primitives.mp found
  cases same

end Registry

namespace World

variable {settings : Settings} {world later : World}

theorem registry_apply {effect : Effect} (h : world.apply settings effect = .ok later) :
    world.registry.defineAll effect.definition?.toList = .ok later.registry := by
  cases effect with
  | define name parameters body =>
      obtain ⟨registry, defined, same⟩ := ok_of_bind h
      cases same
      simp [Registry.defineAll, Effect.definition?, defined]
  | move distance =>
      cases h
      simp only [move]
      split <;> rfl
  | turn angle =>
      cases h
      simp only [turn]
      split <;> rfl
  | wait seconds | pen down | clear =>
      cases h
      rfl

/-- Of the effects, only definitions change the registry. -/
theorem registry_execute {effects : List Effect} (h : world.execute settings effects = .ok later) :
    world.registry.defineAll (effects.filterMap Effect.definition?) = .ok later.registry := by
  induction effects generalizing world with
  | nil =>
      cases h
      rfl
  | cons effect effects ih =>
      obtain ⟨between, applied, rest⟩ := execute_cons h
      have first : (effect :: effects).filterMap Effect.definition? =
          effect.definition?.toList ++ effects.filterMap Effect.definition? := by
        rw [List.filterMap_cons]
        cases effect.definition? <;> rfl
      rw [first, Registry.defineAll_append, registry_apply applied]
      exact ih rest

end World

/-- An instruction that is performed to its end has executed its definitions. -/
theorem Instruction.registry_perform {settings : Settings} {i : Instruction} {run later : Run}
    (h : i.perform settings run = .ok () later) :
    run.world.registry.defineAll (i.definitions run.world.bindings) =
      .ok later.world.registry := by
  obtain ⟨effects, expanded, executed⟩ := i.executes_perform settings run later h
  rw [definitions, expanded]
  exact World.registry_execute executed

end Logo
