import ObjectGraph.Registry

/-!
# Calls on a registry

A program calls a registry and the resolvers that it has from it, one call after another. `Step`
says all that one call can do: nothing to the registry, except that a build on a registry without an
index publishes one, a reset withdraws it, and a chain that is resolved may be remembered. The
resolver of an edition therefore changes by the chains that are resolved through it, and by nothing
else (`Step.edition?_of_eq_some`).
-/

namespace ObjectGraph

/-- The resolver of an index that was just published. -/
def Resolver.fresh (config : RegistryConfig) (index : Index) : Resolver :=
  ⟨index, if config.memoize then some ⟨config.memoCapacity, []⟩ else none⟩

namespace Registry

/-- What a program can ask of a registry and of the resolvers that it has from it. -/
inductive Call where
  | build (modules : List Module)
  | reset
  | types
  | resolver
  /-- Asks for another resolver that shares the index and the remembered answers. -/
  | clone (e : Edition)
  | resolve (e : Edition) (discriminator : String)
deriving DecidableEq, Repr

/-- What is given back for a call. -/
inductive Answer where
  /-- An index, with the edition that it was published as. -/
  | index (e : Edition) (index : Index)
  | resolver (e : Edition)
  | type (d : Descriptor)
  | refused (fault : RegistryError)
  | done
deriving DecidableEq, Repr

/-- A call and its answer. -/
structure Event where
  call : Call
  answer : Answer
deriving DecidableEq, Repr

/-- The answer that gives out the published index. -/
def handOut (r : Registry) : Answer :=
  match r.resolver, r.types with
  | .ok e, .ok index => .index e index
  | .error fault, _ => .refused fault
  | _, .error fault => .refused fault

/-- The answer that gives out a resolver of the published index. -/
def lend (r : Registry) : Answer :=
  match r.resolver with
  | .ok e => .resolver e
  | .error fault => .refused fault

/-- The answer to a call and the registry after it. There is none if the call is for a resolver that
the registry never gave out. -/
def perform (r : Registry) : Call → Option (Answer × Registry)
  | .build modules =>
      match r.build modules with
      | .ok after => some (after.handOut, after)
      | .error fault => some (.refused fault, r)
  | .reset => some (.done, r.reset)
  | .types => some (r.handOut, r)
  | .resolver => some (r.lend, r)
  | .clone e => (r.edition? e).map fun _ => (.resolver e, r)
  | .resolve e discriminator =>
      (r.resolve e discriminator).map fun (d, after) => (.type d, after)

/-- The calls that lead from one registry to another, with their answers, first call first. -/
inductive Runs (r : Registry) : List Event → Registry → Prop
  | start : Runs r [] r
  | call {history : List Event} {before after : Registry} {call : Call} {answer : Answer} :
      Runs r history before → before.perform call = some (answer, after) →
        Runs r (history ++ [⟨call, answer⟩]) after

/-- The history of a list of calls and the registry after them, unless one of them has no answer. -/
def performAll (r : Registry) : List Call → Option (List Event × Registry)
  | [] => some ([], r)
  | call :: rest =>
      match r.perform call with
      | none => none
      | some (answer, next) =>
          (next.performAll rest).map fun (history, after) => (⟨call, answer⟩ :: history, after)

/-- What one call can do. -/
inductive Step (r : Registry) : Call → Answer → Registry → Prop
  | published {modules : List Module} {index : Index} {fault : RegistryError} :
      r.types = .error fault → Index.build modules = .ok index →
        Step r (.build modules) (.index ⟨r.editions.length⟩ index) (r.publish index)
  | misdeclared {modules : List Module} {fault fault' : RegistryError} :
      r.types = .error fault → Index.build modules = .error fault' →
        Step r (.build modules) (.refused fault') r
  | same {modules : List Module} {index : Index} :
      r.types = .ok index → index.modules = Index.moduleNames modules →
        Step r (.build modules) r.handOut r
  | conflict {modules : List Module} {index : Index} :
      r.types = .ok index → index.modules ≠ Index.moduleNames modules →
        Step r (.build modules)
          (.refused (.conflictingInitialization index.modules (Index.moduleNames modules))) r
  | reset : Step r .reset .done r.reset
  | types : Step r .types r.handOut r
  | resolver : Step r .resolver r.lend r
  | clone {e : Edition} {resolver : Resolver} :
      r.edition? e = some resolver → Step r (.clone e) (.resolver e) r
  | resolved {e : Edition} {discriminator : String} {resolver : Resolver} :
      r.edition? e = some resolver →
        Step r (.resolve e discriminator) (.type (resolver.resolve discriminator).1)
          { r with editions := r.editions.set e.number (resolver.resolve discriminator).2 }

variable {r after : Registry} {call : Call} {answer : Answer}

theorem lt_of_edition? {e : Edition} {resolver : Resolver} (he : r.edition? e = some resolver) :
    e.number < r.editions.length :=
  (List.getElem?_eq_some_iff.1 he).1

theorem edition?_publish (r : Registry) (index : Index) :
    (r.publish index).edition? ⟨r.editions.length⟩ = some (Resolver.fresh r.config index) := by
  rw [edition?, publish]
  exact List.getElem?_concat_length

theorem handOut_publish (r : Registry) (index : Index) :
    (r.publish index).handOut = .index ⟨r.editions.length⟩ index := by
  have hresolver : (r.publish index).resolver = .ok ⟨r.editions.length⟩ := rfl
  have htypes : (r.publish index).types = .ok index := by
    simp [Registry.types, publish, edition?]
  rw [handOut, hresolver, htypes]

/-- A registry without an index builds one, or reports why it cannot. -/
theorem perform_build_of_error {fault : RegistryError} (htypes : r.types = .error fault)
    (modules : List Module) :
    r.perform (.build modules) = match Index.build modules with
      | .ok index => some (.index ⟨r.editions.length⟩ index, r.publish index)
      | .error fault => some (.refused fault, r) := by
  rw [perform, Registry.build, htypes]
  cases Index.build modules with
  | ok index => simp only [Except.map, handOut_publish]
  | error fault => rfl

/-- A registry with an index gives it out for the same modules and refuses others. -/
theorem perform_build_of_ok {index : Index} (htypes : r.types = .ok index) (modules : List Module) :
    r.perform (.build modules) = some
      (if index.modules = Index.moduleNames modules then r.handOut
        else .refused
          (.conflictingInitialization index.modules (Index.moduleNames modules)), r) := by
  rw [perform, Registry.build, htypes]
  by_cases hsame : index.modules = Index.moduleNames modules
  · simp only [if_pos hsame]
  · simp only [if_neg hsame]

/-- A call that is answered is a step. -/
theorem step_of_perform (h : r.perform call = some (answer, after)) : Step r call answer after := by
  cases call with
  | build modules =>
      cases htypes : r.types with
      | ok index =>
          rw [perform_build_of_ok htypes] at h
          cases h
          split
          · exact .same htypes ‹_›
          · exact .conflict htypes ‹_›
      | error fault =>
          rw [perform_build_of_error htypes] at h
          cases hbuild : Index.build modules with
          | ok index =>
              rw [hbuild] at h
              cases h
              exact .published htypes hbuild
          | error fault' =>
              rw [hbuild] at h
              cases h
              exact .misdeclared htypes hbuild
  | reset =>
      cases h
      exact .reset
  | types =>
      cases h
      exact .types
  | resolver =>
      cases h
      exact .resolver
  | clone e =>
      obtain ⟨resolver, he, heq⟩ := Option.map_eq_some_iff.1 h
      cases heq
      exact .clone he
  | resolve e discriminator =>
      obtain ⟨⟨d, next⟩, hresolve, heq⟩ := Option.map_eq_some_iff.1 h
      obtain ⟨resolver, he, hnext⟩ := Option.map_eq_some_iff.1 hresolve
      cases heq
      cases hnext
      exact .resolved he

/-- A resolver that was given out can always be asked. -/
theorem perform_resolve {e : Edition} {resolver : Resolver} (he : r.edition? e = some resolver)
    (discriminator : String) :
    ∃ next, r.perform (.resolve e discriminator) =
      some (.type (resolver.resolve discriminator).1, next) := by
  rw [perform, resolve, he]
  exact ⟨_, rfl⟩

theorem edition?_append {extra : List Resolver} {e : Edition} {resolver : Resolver}
    (he : r.edition? e = some resolver) :
    ({ r with editions := r.editions ++ extra } : Registry).edition? e = some resolver := by
  rw [edition?, List.getElem?_append_left (lt_of_edition? he)]
  exact he

/-- An edition's resolver changes only by the chains that are resolved through it. -/
theorem Step.edition?_of_eq_some (h : Step r call answer after) {e : Edition} {resolver : Resolver}
    (he : r.edition? e = some resolver) :
    ((∀ discriminator, call ≠ .resolve e discriminator) ∧ after.edition? e = some resolver) ∨
    ∃ discriminator, call = .resolve e discriminator ∧
      answer = .type (resolver.resolve discriminator).1 ∧
      after.edition? e = some (resolver.resolve discriminator).2 := by
  cases h with
  | published => exact .inl ⟨nofun, edition?_append he⟩
  | @resolved c discriminator other hc =>
      -- A resolver is put back under its own number, so the call is seen by its own edition only.
      by_cases heq : c = e
      · subst heq
        cases he.symm.trans hc
        exact .inr ⟨discriminator, rfl, rfl, List.getElem?_set_self (lt_of_edition? he)⟩
      · refine .inl ⟨fun _ h => heq (by cases h; rfl), ?_⟩
        have hne : c.number ≠ e.number := fun h => heq (by cases c; cases e; cases h; rfl)
        rw [edition?, List.getElem?_set_ne hne]
        exact he
  | misdeclared | same | conflict | reset | types | resolver | clone =>
      exact .inl ⟨nofun, he⟩

/-- A run may be continued by another. -/
theorem Runs.append {mid : Registry} {earlier later : List Event} (h : Runs r earlier mid)
    (hlater : Runs mid later after) : Runs r (earlier ++ later) after := by
  induction hlater with
  | start => rwa [List.append_nil]
  | call _ hcall ih =>
      rw [← List.append_assoc]
      exact .call ih hcall

/-- Calls that are carried out one by one are a run. -/
theorem runs_of_performAll {calls : List Call} {history : List Event}
    (h : r.performAll calls = some (history, after)) : Runs r history after := by
  induction calls generalizing r history with
  | nil =>
      cases h
      exact .start
  | cons call rest ih =>
      rw [performAll] at h
      cases hcall : r.perform call with
      | none =>
          rw [hcall] at h
          cases h
      | some result =>
          rw [hcall] at h
          obtain ⟨⟨later, last⟩, hrest, heq⟩ := Option.map_eq_some_iff.1 h
          cases heq
          exact (Runs.call .start hcall).append (ih hrest)

/-- What a call of a run was answered is what one step answered. -/
theorem Runs.step_of_mem {history : List Event} (h : Runs r history after) {event : Event}
    (hmem : event ∈ history) : ∃ before next, Step before event.call event.answer next := by
  induction h with
  | start => cases hmem
  | call _ hcall ih =>
      rcases List.mem_append.1 hmem with hold | hlast
      · exact ih hold
      · cases List.mem_singleton.1 hlast
        exact ⟨_, _, step_of_perform hcall⟩

/-- The resolvers that a history makes from one by cloning, itself among them. -/
inductive CloneOf (history : List Event) (e : Edition) : Edition → Prop
  | self : CloneOf history e e
  | again {c d : Edition} : CloneOf history e c → ⟨.clone c, .resolver d⟩ ∈ history →
      CloneOf history e d

/-- Clones share their edition. -/
theorem CloneOf.eq {history : List Event} (hrun : Runs r history after) {e c : Edition}
    (h : CloneOf history e c) : c = e := by
  induction h with
  | self => rfl
  | again _ hmem ih =>
      obtain ⟨before, next, hstep⟩ := hrun.step_of_mem hmem
      cases hstep
      exact ih

end Registry

end ObjectGraph
