import ObjectGraph.Proofs.Entries.Updates
import ObjectGraph.Proofs.Registry.Calls
import ObjectGraph.Proofs.Registry.Resolution

/-!
# Remembered answers

What a resolver remembers never shows. It remembers only right answers, each chain once and not more
of them than it has room for (`Memo.Sound`); a resolved chain keeps this
(`Resolver.Stands.resolve`), and so does every call on the registry, of any resolver. Hence each
answer in a run is the one that the index gives, whichever clone is asked and whatever was asked
before (`Registry.resolve_transparent`).
-/

namespace ObjectGraph

/-- What holds of the answers that are remembered for an index. -/
structure Memo.Sound (index : Index) (memo : Memo) : Prop where
  bounded : memo.answers.length ≤ memo.capacity
  distinct : (Entries.keys memo.answers).Nodup
  right : ∀ entry ∈ memo.answers, entry.2 = index.resolve entry.1

namespace Memo.Sound

variable {index : Index}

theorem empty (capacity : Nat) : Memo.Sound index ⟨capacity, []⟩ :=
  ⟨Nat.zero_le _, List.nodup_nil, nofun⟩

theorem of_get? {memo : Memo} (h : memo.Sound index) {discriminator : String} {answer : Descriptor}
    (hget : Entries.get? discriminator memo.answers = some answer) :
    answer = index.resolve discriminator :=
  h.right _ (Entries.mem_of_get? hget)

/-- Remembering an answer keeps the memory sound while there is room. -/
theorem insert {memo : Memo} (h : memo.Sound index) (hroom : memo.answers.length < memo.capacity)
    {discriminator : String} (hnew : Entries.get? discriminator memo.answers = none) :
    Memo.Sound index ⟨memo.capacity,
      Entries.insert discriminator (index.resolve discriminator) memo.answers⟩ where
  bounded := by
    rw [Entries.insert_of_not_mem (Entries.get?_eq_none_iff.1 hnew), List.length_append]
    exact hroom
  distinct := Entries.nodup_keys_insert h.distinct _ _
  right := by
    intro entry hmem
    rw [Entries.insert_of_not_mem (Entries.get?_eq_none_iff.1 hnew)] at hmem
    rcases List.mem_append.1 hmem with hold | hlast
    · exact h.right entry hold
    · rw [List.mem_singleton.1 hlast]

end Memo.Sound

namespace Resolver

/-- A resolver of an index that remembers as the settings say, and only what is sound. -/
structure Stands (config : RegistryConfig) (index : Index) (resolver : Resolver) : Prop where
  reads : resolver.index = index
  capacity : resolver.memo.map (·.capacity) =
    if config.memoize then some config.memoCapacity else none
  sound : ∀ memo, resolver.memo = some memo → memo.Sound index

variable {config : RegistryConfig} {index : Index} {resolver : Resolver}

/-- A resolver gives a remembered answer or asks its index, and remembers a new answer if it has
room. -/
theorem resolve_cases (resolver : Resolver) (discriminator : String) :
    (∃ memo answer, resolver.memo = some memo ∧
      Entries.get? discriminator memo.answers = some answer ∧
      resolver.resolve discriminator = (answer, resolver)) ∨
    resolver.resolve discriminator = (resolver.index.resolve discriminator, resolver) ∨
    ∃ memo, resolver.memo = some memo ∧ Entries.get? discriminator memo.answers = none ∧
      memo.answers.length < memo.capacity ∧
      resolver.resolve discriminator = (resolver.index.resolve discriminator,
        ⟨resolver.index, some ⟨memo.capacity,
          Entries.insert discriminator (resolver.index.resolve discriminator) memo.answers⟩⟩) := by
  rw [resolve]
  cases hmemo : resolver.memo with
  | none => exact .inr (.inl rfl)
  | some memo =>
      cases hget : Entries.get? discriminator memo.answers with
      | some answer => exact .inl ⟨memo, answer, rfl, hget, by simp only [hget]⟩
      | none =>
          simp only [hget]
          by_cases hroom : memo.answers.length < memo.capacity
          · exact .inr (.inr ⟨memo, rfl, hget, hroom, by rw [if_pos hroom]⟩)
          · exact .inr (.inl (by rw [if_neg hroom]))

theorem memo_fresh {memo : Memo} (h : (fresh config index).memo = some memo) :
    memo = ⟨config.memoCapacity, []⟩ := by
  rw [fresh] at h
  cases hmemoize : config.memoize with
  | false =>
      rw [hmemoize] at h
      cases h
  | true =>
      rw [hmemoize] at h
      cases h
      rfl

/-- A new resolver stands for its index. -/
theorem stands_fresh (config : RegistryConfig) (index : Index) :
    Stands config index (fresh config index) where
  reads := rfl
  capacity := by
    rw [fresh]
    cases config.memoize <;> rfl
  sound := by
    intro memo hmemo
    rw [memo_fresh hmemo]
    exact .empty _

/-- The answer to a chain is the index's own, and the resolver stands as before. -/
theorem Stands.resolve (h : resolver.Stands config index) (discriminator : String) :
    (resolver.resolve discriminator).1 = index.resolve discriminator ∧
      (resolver.resolve discriminator).2.Stands config index := by
  rcases resolve_cases resolver discriminator with
    ⟨memo, answer, hmemo, hget, hresolve⟩ | hresolve | ⟨memo, hmemo, hget, hroom, hresolve⟩ <;>
    rw [hresolve]
  · -- A remembered answer is right because all of them are.
    exact ⟨(h.sound memo hmemo).of_get? hget, h⟩
  · exact ⟨by rw [h.reads], h⟩
  · rw [h.reads]
    refine ⟨rfl, rfl, ?_, ?_⟩
    · rw [← h.capacity, hmemo]
      rfl
    · intro next hnext
      cases hnext
      exact (h.sound memo hmemo).insert hroom hget

end Resolver

namespace Registry

variable {r after : Registry} {config : RegistryConfig} {index : Index} {e : Edition}
  {resolver : Resolver} {history : List Event}

/-- A call leaves the resolver of an edition standing, and a chain gets its right answer. -/
theorem Step.stands {call : Call} {answer : Answer} (h : Step r call answer after)
    (he : r.edition? e = some resolver) (hstands : resolver.Stands config index) :
    (∃ next, after.edition? e = some next ∧ next.Stands config index) ∧
    ∀ discriminator, call = .resolve e discriminator →
      answer = .type (index.resolve discriminator) := by
  rcases h.edition?_of_eq_some he with ⟨hother, hafter⟩ | ⟨asked, rfl, rfl, hafter⟩
  · exact ⟨⟨resolver, hafter, hstands⟩, fun discriminator hcall =>
      absurd hcall (hother discriminator)⟩
  · obtain ⟨hright, hnext⟩ := hstands.resolve asked
    refine ⟨⟨_, hafter, hnext⟩, ?_⟩
    rintro discriminator ⟨⟩
    rw [hright]

/-- A run leaves the resolver of an edition standing, and it answered right all along. -/
theorem Runs.stands (hrun : Runs r history after) (he : r.edition? e = some resolver)
    (hstands : resolver.Stands config index) :
    (∃ next, after.edition? e = some next ∧ next.Stands config index) ∧
    ∀ discriminator answer, ⟨.resolve e discriminator, answer⟩ ∈ history →
      answer = .type (index.resolve discriminator) := by
  induction hrun with
  | start => exact ⟨⟨resolver, he, hstands⟩, nofun⟩
  | call _ hcall ih =>
      obtain ⟨⟨current, hcurrent, hsound⟩, hanswers⟩ := ih
      obtain ⟨hnext, hanswer⟩ := (step_of_perform hcall).stands hcurrent hsound
      refine ⟨hnext, ?_⟩
      intro discriminator answer hmem
      rcases List.mem_append.1 hmem with hold | hlast
      · exact hanswers discriminator answer hold
      · cases List.mem_singleton.1 hlast
        exact hanswer discriminator rfl

/-- What a registry without an index publishes stands in a new edition. -/
theorem exists_stands_of_build (hr : r.isInitialized = false) {modules : List Module}
    {built : Registry} (hbuild : r.build modules = .ok built) {index : Index}
    (htypes : built.types = .ok index) {e : Edition} (hresolver : built.resolver = .ok e) :
    ∃ resolver, built.edition? e = some resolver ∧ resolver.Stands r.config index := by
  rw [build_of_uninitialized hr, map_eq_ok_iff] at hbuild
  obtain ⟨own, -, rfl⟩ := hbuild
  rw [types_publish] at htypes
  cases htypes
  cases hresolver
  exact ⟨_, edition?_publish r index, Resolver.stands_fresh r.config index⟩

/-- Let a registry without an index build one under any settings, and let any run of calls follow.
Each chain that was resolved through a clone of the index's resolver got the index's own answer, and
so does each further chain. What the resolver remembers after the run, if the settings let it, is
within the capacity, each chain once, and each with the index's own answer. -/
theorem resolve_transparent (hr : r.isInitialized = false) {modules : List Module}
    {built : Registry} (hbuild : r.build modules = .ok built) {index : Index}
    (htypes : built.types = .ok index) {e : Edition} (hresolver : built.resolver = .ok e)
    {history : List Event} {after : Registry} (hrun : Runs built history after) :
    (∀ c, CloneOf history e c →
      (∀ discriminator answer, ⟨.resolve c discriminator, answer⟩ ∈ history →
        answer = .type (index.resolve discriminator)) ∧
      ∀ discriminator, ∃ next, after.perform (.resolve c discriminator) =
        some (.type (index.resolve discriminator), next)) ∧
    ∃ resolver, after.edition? e = some resolver ∧ resolver.index = index ∧
      resolver.memo.isSome = r.config.memoize ∧
      ∀ memo, resolver.memo = some memo → memo.capacity = r.config.memoCapacity ∧
        memo.answers.length ≤ r.config.memoCapacity ∧ (Entries.keys memo.answers).Nodup ∧
        ∀ entry ∈ memo.answers, entry.2 = index.resolve entry.1 := by
  obtain ⟨first, hfirst, hstands⟩ := exists_stands_of_build hr hbuild htypes hresolver
  obtain ⟨⟨last, hlast, hstanding⟩, hanswers⟩ := hrun.stands hfirst hstands
  constructor
  · -- A clone is the same edition, so it is enough to ask the resolver itself.
    intro c hclone
    rw [hclone.eq hrun]
    refine ⟨hanswers, ?_⟩
    intro discriminator
    rw [← (hstanding.resolve discriminator).1]
    exact perform_resolve hlast discriminator
  · have hcapacity := hstanding.capacity
    refine ⟨last, hlast, hstanding.reads, ?_, ?_⟩
    · rw [← Option.isSome_map (f := fun memo => memo.capacity), hcapacity]
      cases r.config.memoize <;> rfl
    · intro memo hmemo
      have hsound := hstanding.sound memo hmemo
      have hequal : memo.capacity = r.config.memoCapacity := by
        rw [hmemo] at hcapacity
        cases hmemoize : r.config.memoize with
        | false =>
            rw [hmemoize] at hcapacity
            cases hcapacity
        | true =>
            rw [hmemoize] at hcapacity
            exact Option.some.inj hcapacity
      exact ⟨hequal, hequal ▸ hsound.bounded, hsound.distinct, hsound.right⟩

/-- The registry of the gate kit, with room for one answer. -/
def gateRegistry (answers : List (String × Descriptor)) : Registry where
  config := ⟨true, 1⟩
  editions := [⟨.gateIndex, some ⟨1, answers⟩⟩]
  published := some ⟨0⟩

/-- The resolver is asked for one gate and a clone of it for the same gate again; then a third chain
finds no room. -/
def gateHistory : List Event :=
  [⟨.resolve ⟨0⟩ "Kit.Gate", .type .sampleGate⟩, ⟨.clone ⟨0⟩, .resolver ⟨0⟩⟩,
   ⟨.resolve ⟨0⟩ "Kit.Gate", .type .sampleGate⟩, ⟨.resolve ⟨0⟩ "Kit.Door", .type .sampleRoot⟩]

/-- The memory holds one answer; another question is answered without it. -/
theorem resolve_transparent_gateRegistry :
    ({ config := ⟨true, 1⟩ } : Registry).build Module.gateKit = .ok (gateRegistry []) ∧
      (gateRegistry []).types = .ok .gateIndex ∧ (gateRegistry []).resolver = .ok ⟨0⟩ ∧
      Runs (gateRegistry []) gateHistory (gateRegistry [("Kit.Gate", .sampleGate)]) ∧
      CloneOf gateHistory ⟨0⟩ ⟨0⟩ ∧
      ∃ next, (gateRegistry [("Kit.Gate", .sampleGate)]).perform (.resolve ⟨0⟩ "Kit.Door") =
        some (.type (Index.gateIndex.resolve "Kit.Door"), next) := by
  have hbuild : ({ config := ⟨true, 1⟩ } : Registry).build Module.gateKit =
      .ok (gateRegistry []) := by
    decide +kernel
  have hall : (gateRegistry []).performAll (gateHistory.map (·.call)) =
      some (gateHistory, gateRegistry [("Kit.Gate", .sampleGate)]) := by
    decide +kernel
  have hrun := runs_of_performAll hall
  have hclone : CloneOf gateHistory ⟨0⟩ ⟨0⟩ := .again .self (by decide)
  refine ⟨hbuild, rfl, rfl, hrun, hclone, ?_⟩
  exact ((resolve_transparent rfl hbuild rfl rfl hrun).1 ⟨0⟩ hclone).2 "Kit.Door"

end Registry

end ObjectGraph
