import ObjectGraph.Proofs.Entries.Sorted
import ObjectGraph.Proofs.Registry.Memo
import ObjectGraph.Proofs.Registry.Resolution

/-!
# The life cycle of a registry

A registry is followed through any run of calls, from the moment it is made. What is published is
told by the calls and their answers alone: the index that the first successful build since the last
reset gave out (`published`). `Follows` says what every next call is answered, and
`Registry.life_cycle` that a registry follows each of its histories. It is carried by `Holds`, which
every step keeps (`Holds.step`).
-/

namespace ObjectGraph

/-- The elements of a list of names in increasing order, each once. -/
structure IsSortedSet (names sorted : List String) : Prop where
  increasing : sorted.Pairwise (· < ·)
  same : ∀ name, name ∈ sorted ↔ name ∈ names

theorem IsSortedSet.unique {names xs ys : List String} (hx : IsSortedSet names xs)
    (hy : IsSortedSet names ys) : xs = ys :=
  Entries.eq_of_pairwise_lt hx.increasing hy.increasing fun name =>
    (hx.same name).trans (hy.same name).symm

/-- The names of the modules are listed once each, in order. -/
theorem Index.isSortedSet_moduleNames (modules : List Module) :
    IsSortedSet (modules.map (·.name)) (moduleNames modules) where
  increasing := List.pairwise_map.2 (Entries.increasing_sorted _)
  same := by
    intro name
    rw [moduleNames, sortedNames, Entries.mem_keys_sorted, Entries.keys, List.map_map,
      Function.comp_def]
    simp

namespace Resolver

/-- What is remembered after a chain was resolved is its answer or was remembered before. -/
theorem mem_of_mem_resolve {resolver : Resolver} {discriminator : String} {memo : Memo}
    (hmemo : (resolver.resolve discriminator).2.memo = some memo) {entry : String × Descriptor}
    (hmem : entry ∈ memo.answers) :
    entry = (discriminator, (resolver.resolve discriminator).1) ∨
      ∃ old, resolver.memo = some old ∧ entry ∈ old.answers := by
  rcases resolve_cases resolver discriminator with ⟨old, answer, -, -, hresolve⟩ | hresolve |
    ⟨old, hold, hget, -, hresolve⟩ <;> rw [hresolve] at hmemo ⊢
  · exact .inr ⟨memo, hmemo, hmem⟩
  · exact .inr ⟨memo, hmemo, hmem⟩
  · cases hmemo
    rw [Entries.insert_of_not_mem (Entries.get?_eq_none_iff.1 hget)] at hmem
    rcases List.mem_append.1 hmem with hbefore | hlast
    · exact .inr ⟨old, hold, hbefore⟩
    · exact .inl (List.mem_singleton.1 hlast)

end Resolver

namespace Registry

/-! ## What a history publishes -/

/-- What is published after an event, where `now` was published before it. -/
def Event.publishes (now : Option (Edition × Index)) (event : Event) : Option (Edition × Index) :=
  match event.call, event.answer with
  | .reset, _ => none
  | .build _, .index e index => now.or (some (e, index))
  | _, _ => now

/-- What is published after a history: the index that the first successful build since the last
reset gave out. -/
def publishedAfter (history : List Event) : Option (Edition × Index) :=
  history.foldl Event.publishes none

theorem publishedAfter_append (history : List Event) (event : Event) :
    publishedAfter (history ++ [event]) = event.publishes (publishedAfter history) := by
  rw [publishedAfter, List.foldl_append]
  rfl

/-- What an event leaves published was published before, or it is what the event built. -/
theorem Event.publishes_eq_some {now : Option (Edition × Index)} {event : Event} {e : Edition}
    {index : Index} (h : event.publishes now = some (e, index)) :
    now = some (e, index) ∨ now = none ∧ ∃ modules, event = ⟨.build modules, .index e index⟩ := by
  obtain ⟨call, answer⟩ := event
  cases now with
  | some current =>
      rw [Event.publishes] at h
      split at h
      · cases h
      · exact .inl h
      · exact .inl h
  | none =>
      rw [Event.publishes] at h
      split at h
      · cases h
      · rename_i modules _ _ hcall hanswer
        cases h
        exact .inr ⟨rfl, modules, by rw [show call = _ from hcall, show answer = _ from hanswer]⟩
      · cases h

/-- The edition that a call is about. -/
def Call.edition? : Call → Option Edition
  | .clone e => some e
  | .resolve e _ => some e
  | _ => none

/-- The edition that an answer gives out. -/
def Answer.edition? : Answer → Option Edition
  | .index e _ => some e
  | .resolver e => some e
  | _ => none

/-- Whether an event is about an edition. -/
def Event.Mentions (event : Event) (e : Edition) : Prop :=
  event.call.edition? = some e ∨ event.answer.edition? = some e

/-! ## What a registry answers after a history -/

/-- How a registry goes on after a history. -/
structure Follows (history : List Event) (r : Registry) : Prop where
  /-- Without an index there is nothing to give out. -/
  unpublished : publishedAfter history = none →
    r.perform .types = some (.refused .notInitialized, r) ∧
    r.perform .resolver = some (.refused .notInitialized, r)
  given : ∀ e index, publishedAfter history = some (e, index) →
    r.perform .types = some (.index e index, r) ∧ r.perform .resolver = some (.resolver e, r)
  /-- The published index is one that was built, and it knows the names of its modules. -/
  origin : ∀ e index, publishedAfter history = some (e, index) → ∃ modules,
    ⟨.build modules, .index e index⟩ ∈ history ∧ Index.build modules = .ok index ∧
    IsSortedSet (modules.map (·.name)) index.modules
  /-- A build that fails changes nothing. -/
  failed : ∀ modules fault after, r.perform (.build modules) = some (.refused fault, after) →
    after = r
  /-- Without an index a build publishes one, as an edition that no earlier event is about, with
  nothing remembered for it. -/
  built : publishedAfter history = none → ∀ modules index, Index.build modules = .ok index →
    ∃ e after, r.perform (.build modules) = some (.index e index, after) ∧
      (∀ event ∈ history, ¬ event.Mentions e) ∧
      after.edition? e = some (Resolver.fresh r.config index)
  misdeclared : publishedAfter history = none →
    ∀ modules fault, Index.build modules = .error fault →
    r.perform (.build modules) = some (.refused fault, r)
  /-- With an index a build gives that index, if it is for modules of the same names, and builds
  none. -/
  again : ∀ e index, publishedAfter history = some (e, index) → ∀ modules requested,
    IsSortedSet (modules.map (·.name)) requested →
      r.perform (.build modules) = some
        (if index.modules = requested then .index e index
          else .refused (.conflictingInitialization index.modules requested), r)
  /-- A resolver of the published index answers from that index, whatever is called in between. -/
  kept : ∀ e index, publishedAfter history = some (e, index) → ∀ later after, Runs r later after →
    ∀ discriminator, ∃ next, after.perform (.resolve e discriminator) =
      some (.type (index.resolve discriminator), next)
  /-- What is remembered for an edition was answered for that edition. -/
  own : ∀ e resolver memo, r.edition? e = some resolver → resolver.memo = some memo →
    ∀ entry ∈ memo.answers, ⟨.resolve e entry.1, .type entry.2⟩ ∈ history

/-- What carries `Follows` from call to call. -/
structure Holds (history : List Event) (r : Registry) : Prop where
  unpublished : publishedAfter history = none → r.published = none
  given : ∀ e index, publishedAfter history = some (e, index) → r.published = some e ∧
    ∃ resolver, r.edition? e = some resolver ∧ resolver.Stands r.config index
  origin : ∀ e index, publishedAfter history = some (e, index) → ∃ modules,
    ⟨.build modules, .index e index⟩ ∈ history ∧ Index.build modules = .ok index
  known : ∀ event ∈ history, ∀ e, event.Mentions e → e.number < r.editions.length
  own : ∀ e resolver memo, r.edition? e = some resolver → resolver.memo = some memo →
    ∀ entry ∈ memo.answers, ⟨.resolve e entry.1, .type entry.2⟩ ∈ history

variable {r after : Registry} {call : Call} {answer : Answer} {history : List Event}

/-! ## What one call keeps -/

theorem Step.length_editions_le (h : Step r call answer after) :
    r.editions.length ≤ after.editions.length := by
  cases h with
  | published => exact (List.sublist_append_left _ _).length_le
  | resolved => exact Nat.le_of_eq (List.length_set).symm
  | misdeclared | same | conflict | reset | types | resolver | clone => exact Nat.le_refl _

/-- The resolver of an edition after a call was there before, or is fresh, or has just answered. -/
theorem Step.edition?_cases (h : Step r call answer after) {e : Edition} {next : Resolver}
    (hnext : after.edition? e = some next) :
    r.edition? e = some next ∨ (∃ index, next = Resolver.fresh r.config index) ∨
    ∃ discriminator resolver, call = .resolve e discriminator ∧ r.edition? e = some resolver ∧
      answer = .type (resolver.resolve discriminator).1 ∧
      next = (resolver.resolve discriminator).2 := by
  cases hold : r.edition? e with
  | some resolver =>
      rcases h.edition?_of_eq_some hold with ⟨-, hsame⟩ | ⟨discriminator, hcall, hanswer, hresolved⟩
      · rw [hsame] at hnext
        exact .inl hnext
      · rw [hresolved] at hnext
        cases hnext
        exact .inr (.inr ⟨discriminator, resolver, hcall, rfl, hanswer, rfl⟩)
  | none =>
      -- An edition that was not there can only have been published.
      have hge : r.editions.length ≤ e.number := List.getElem?_eq_none_iff.1 hold
      cases h with
      | @published _ index _ _ _ =>
          rw [edition?, publish, List.getElem?_append_right hge] at hnext
          have hmem := List.mem_of_getElem? hnext
          exact .inr (.inl ⟨index, List.mem_singleton.1 hmem⟩)
      | resolved =>
          have hlt := lt_of_edition? hnext
          rw [List.length_set] at hlt
          exact absurd hlt (Nat.not_lt.2 hge)
      | misdeclared | same | conflict | reset | types | resolver | clone =>
          cases hold.symm.trans hnext

namespace Holds

/-- A registry gives out the index that its history says is published. -/
theorem types_of_given (h : Holds history r) {e : Edition} {index : Index}
    (hpublished : publishedAfter history = some (e, index)) : r.types = .ok index := by
  obtain ⟨hnow, resolver, hresolver, hstands⟩ := h.given e index hpublished
  rw [types, hnow, Option.bind_some, hresolver, ← hstands.reads]

theorem types_of_unpublished (h : Holds history r) (hpublished : publishedAfter history = none) :
    r.types = .error .notInitialized := by
  rw [types, h.unpublished hpublished]
  rfl

theorem types_eq_ok_iff (h : Holds history r) {index : Index} :
    r.types = .ok index ↔ ∃ e, publishedAfter history = some (e, index) := by
  constructor
  · intro htypes
    cases hpublished : publishedAfter history with
    | none =>
        rw [h.types_of_unpublished hpublished] at htypes
        cases htypes
    | some now =>
        rw [h.types_of_given hpublished] at htypes
        cases htypes
        exact ⟨now.1, rfl⟩
  · rintro ⟨e, hpublished⟩
    exact h.types_of_given hpublished

/-- The registry gives out what its history says. -/
theorem handOut_eq (h : Holds history r) :
    r.handOut = match publishedAfter history with
      | some (e, index) => .index e index
      | none => .refused .notInitialized := by
  cases hpublished : publishedAfter history with
  | none => rw [handOut, resolver, h.unpublished hpublished]
  | some now =>
      rw [handOut, h.types_of_given hpublished, resolver, (h.given now.1 now.2 hpublished).1]

/-- A registry lends the resolver of the published edition. -/
theorem lend_eq (h : Holds history r) :
    r.lend = match publishedAfter history with
      | some (e, _) => .resolver e
      | none => .refused .notInitialized := by
  cases hpublished : publishedAfter history with
  | none => rw [lend, resolver, h.unpublished hpublished]
  | some now => rw [lend, resolver, (h.given now.1 now.2 hpublished).1]

/-- The published edition is one of the registry's, whichever way it is given out. -/
theorem lt_of_handOut (h : Holds history r) {e : Edition} (he : r.handOut.edition? = some e) :
    e.number < r.editions.length := by
  rw [h.handOut_eq] at he
  cases hpublished : publishedAfter history with
  | none =>
      rw [hpublished] at he
      cases he
  | some now =>
      rw [hpublished] at he
      cases he
      obtain ⟨-, resolver, hresolver, -⟩ := h.given now.1 now.2 hpublished
      exact lt_of_edition? hresolver

theorem lt_of_lend (h : Holds history r) {e : Edition} (he : r.lend.edition? = some e) :
    e.number < r.editions.length := by
  apply h.lt_of_handOut
  rw [← he, h.handOut_eq, h.lend_eq]
  cases publishedAfter history <;> rfl

end Holds

theorem Holds.start (config : RegistryConfig) : Holds [] { config } where
  unpublished _ := rfl
  given := nofun
  origin := nofun
  known := nofun
  own := nofun

/-- What a call publishes is what its event says. -/
theorem Holds.publishes (h : Holds history r) (hstep : Step r call answer after) :
    (publishedAfter (history ++ [⟨call, answer⟩]) = none → after.published = none) ∧
    ∀ e index, publishedAfter (history ++ [⟨call, answer⟩]) = some (e, index) →
      after.published = some e ∧
      ∃ resolver, after.edition? e = some resolver ∧ resolver.Stands after.config index := by
  rw [publishedAfter_append]
  cases hstep with
  | reset => exact ⟨fun _ => rfl, nofun⟩
  | @published modules index fault htypes hbuild =>
      -- Only a registry that has nothing published builds.
      have hnone : publishedAfter history = none := by
        cases hpublished : publishedAfter history with
        | none => rfl
        | some now =>
            rw [h.types_eq_ok_iff.2 ⟨now.1, hpublished⟩] at htypes
            cases htypes
      rw [hnone]
      refine ⟨nofun, ?_⟩
      intro e other heq
      cases heq
      exact ⟨rfl, _, edition?_publish r index, Resolver.stands_fresh r.config index⟩
  | same htypes =>
      -- The event tells the index that is published already, which is not published again.
      obtain ⟨e, hpublished⟩ := h.types_eq_ok_iff.1 htypes
      rw [h.handOut_eq, hpublished]
      exact ⟨nofun, fun e index heq => h.given e index (hpublished.trans heq)⟩
  | misdeclared | conflict | types | resolver | clone => exact ⟨h.unpublished, h.given⟩
  | @resolved c discriminator resolver hc =>
      refine ⟨h.unpublished, ?_⟩
      intro e index heq
      obtain ⟨hnow, current, hcurrent, hstands⟩ := h.given e index heq
      have hresolved : Step r (.resolve c discriminator) _ _ := .resolved hc
      exact ⟨hnow, (hresolved.stands hcurrent hstands).1⟩

/-- An event is about editions that are there after it. -/
theorem Holds.lt_of_mentions (h : Holds history r) (hstep : Step r call answer after) {e : Edition}
    (hmentions : Event.Mentions ⟨call, answer⟩ e) : e.number < after.editions.length := by
  rcases hmentions with hcall | hanswer
  · -- A call is for an edition that was there before it.
    refine Nat.lt_of_lt_of_le ?_ hstep.length_editions_le
    cases hstep with
    | clone he | resolved he =>
        cases hcall
        exact lt_of_edition? he
    | _ => cases hcall
  · cases hstep with
    | published =>
        cases hanswer
        exact lt_of_edition? (edition?_publish _ _)
    | same | types => exact h.lt_of_handOut hanswer
    | resolver => exact h.lt_of_lend hanswer
    | clone he =>
        cases hanswer
        exact lt_of_edition? he
    | misdeclared | conflict | reset | resolved => cases hanswer

/-- An index that a build gives out where none was published has just been built. -/
theorem Holds.build_of_step (h : Holds history r) (hnone : publishedAfter history = none)
    {modules : List Module} {e : Edition} {index : Index}
    (hstep : Step r (.build modules) (.index e index) after) : Index.build modules = .ok index := by
  generalize hanswer : Answer.index e index = answer at hstep
  cases hstep with
  | published _ hbuild =>
      cases hanswer
      exact hbuild
  | misdeclared | conflict => cases hanswer
  | same htypes =>
      rw [h.types_of_unpublished hnone] at htypes
      cases htypes

/-- Every call keeps what holds of a history. -/
theorem Holds.step (h : Holds history r) (hstep : Step r call answer after) :
    Holds (history ++ [⟨call, answer⟩]) after where
  unpublished := (h.publishes hstep).1
  given := (h.publishes hstep).2
  origin := by
    intro e index heq
    rw [publishedAfter_append] at heq
    rcases Event.publishes_eq_some heq with hold | ⟨hnone, modules, hevent⟩
    · obtain ⟨modules, hmem, hbuild⟩ := h.origin e index hold
      exact ⟨modules, List.mem_append_left _ hmem, hbuild⟩
    · refine ⟨modules, hevent ▸ List.mem_append_right _ List.mem_cons_self, ?_⟩
      cases hevent
      exact h.build_of_step hnone hstep
  known := by
    intro event hmem e hmentions
    rcases List.mem_append.1 hmem with hold | hlast
    · exact Nat.lt_of_lt_of_le (h.known event hold e hmentions) hstep.length_editions_le
    · cases List.mem_singleton.1 hlast
      exact h.lt_of_mentions hstep hmentions
  own := by
    intro e next memo hnext hmemo entry hmem
    rw [List.mem_append]
    rcases hstep.edition?_cases hnext with hold | ⟨index, rfl⟩ |
      ⟨discriminator, resolver, rfl, hold, rfl, rfl⟩
    · exact .inl (h.own e next memo hold hmemo entry hmem)
    · rw [Resolver.memo_fresh hmemo] at hmem
      cases hmem
    · rcases Resolver.mem_of_mem_resolve hmemo hmem with rfl | ⟨old, hold', hbefore⟩
      · exact .inr List.mem_cons_self
      · exact .inl (h.own e resolver old hold hold' entry hbefore)

/-- A registry and its history agree after every run. -/
theorem Runs.holds {config : RegistryConfig} (hrun : Runs { config } history r) :
    Holds history r := by
  induction hrun with
  | start => exact .start config
  | call _ hcall ih => exact ih.step (step_of_perform hcall)

/-- After any run of calls from its making on, a registry goes on as its history says: it gives out
the index that the first successful build since the last reset gave out, and nothing without one; a
build that fails changes nothing; with an index a build is for modules of the same names or fails,
and builds none; a new index is a new edition with nothing remembered; and the resolver of an
edition answers from the index of that edition for good. -/
theorem life_cycle {config : RegistryConfig} {history : List Event} {r : Registry}
    (hrun : Runs { config } history r) : Follows history r := by
  have h := hrun.holds
  refine ⟨?unpublished, ?given, ?origin, ?failed, ?built, ?misdeclared, ?again, ?kept, h.own⟩
  case unpublished =>
    intro hnone
    rw [perform, perform, h.handOut_eq, h.lend_eq, hnone]
    exact ⟨rfl, rfl⟩
  case given =>
    intro e index hpublished
    rw [perform, perform, h.handOut_eq, h.lend_eq, hpublished]
    exact ⟨rfl, rfl⟩
  case origin =>
    intro e index hpublished
    obtain ⟨modules, hmem, hbuild⟩ := h.origin e index hpublished
    refine ⟨modules, hmem, hbuild, ?_⟩
    rw [(Index.isBuilt_of_build hbuild).modules]
    exact Index.isSortedSet_moduleNames modules
  case failed =>
    intro modules fault after hcall
    have hstep := step_of_perform hcall
    generalize hanswer : Answer.refused fault = answer at hstep
    cases hstep with
    | published => cases hanswer
    | misdeclared | same | conflict => rfl
  case built =>
    intro hnone modules index hbuild
    refine ⟨⟨r.editions.length⟩, r.publish index, ?_, ?_, edition?_publish r index⟩
    · rw [perform_build_of_error (h.types_of_unpublished hnone), hbuild]
    · intro event hmem hmentions
      exact Nat.lt_irrefl _ (h.known event hmem _ hmentions)
  case misdeclared =>
    intro hnone modules fault hbuild
    rw [perform_build_of_error (h.types_of_unpublished hnone), hbuild]
  case again =>
    intro e index hpublished modules requested hrequested
    rw [perform_build_of_ok (h.types_of_given hpublished), h.handOut_eq, hpublished,
      hrequested.unique (Index.isSortedSet_moduleNames modules)]
  case kept =>
    -- Later calls may reset and publish, but they leave the resolver of this edition standing.
    intro e index hpublished later after hlater discriminator
    obtain ⟨-, resolver, hresolver, hstands⟩ := h.given e index hpublished
    obtain ⟨⟨last, hlast, hstanding⟩, -⟩ := hlater.stands hresolver hstands
    rw [← (hstanding.resolve discriminator).1]
    exact perform_resolve hlast discriminator

/-- A registry is built, reset and built again from modules of the same name; both editions are
asked for the gate, and two builds in between are refused. -/
def rebuiltHistory : List Event :=
  [⟨.build Module.gateKit, .index ⟨0⟩ .gateIndex⟩,
   ⟨.resolver, .resolver ⟨0⟩⟩,
   ⟨.resolve ⟨0⟩ "Kit.Gate", .type .sampleGate⟩,
   ⟨.build Module.loopedKit, .refused (.conflictingInitialization ["Kit"] ["Drafts", "Kit"])⟩,
   ⟨.reset, .done⟩,
   ⟨.types, .refused .notInitialized⟩,
   ⟨.build Module.loopedKit, .refused (.inheritanceCycle ⟨3, "Door"⟩)⟩,
   ⟨.build Module.panelKit, .index ⟨1⟩ .panelIndex⟩,
   ⟨.resolve ⟨1⟩ "Kit.Gate", .type .sampleRoot⟩,
   ⟨.resolve ⟨0⟩ "Kit.Gate", .type .sampleGate⟩]

/-- The registry after that history: both editions stand, each with its own answer. -/
def rebuiltRegistry : Registry where
  editions := [⟨.gateIndex, some ⟨4096, [("Kit.Gate", .sampleGate)]⟩⟩,
    ⟨.panelIndex, some ⟨4096, [("Kit.Gate", .sampleRoot)]⟩⟩]
  published := some ⟨1⟩

/-- The whole history is a run, and it ends with the second edition published. -/
theorem life_cycle_rebuiltRegistry :
    Runs {} rebuiltHistory rebuiltRegistry ∧
      publishedAfter rebuiltHistory = some (⟨1⟩, .panelIndex) ∧
        Follows rebuiltHistory rebuiltRegistry := by
  have hall : ({} : Registry).performAll (rebuiltHistory.map (·.call)) =
      some (rebuiltHistory, rebuiltRegistry) := by
    decide +kernel
  have hrun := runs_of_performAll hall
  exact ⟨hrun, rfl, life_cycle hrun⟩

end Registry

end ObjectGraph
