import ObjectGraph.Proofs.Entries.Updates
import ObjectGraph.Proofs.Result
import ObjectGraph.Registry.Index

/-!
# Chains of parents

The definitions that a list of modules makes known are one list (`Module.definitions`): the root's
own definition and then those of the modules that are read, the first one of every handle. From a
definition the chain of parents goes up step by step (`Climbs`), as long as the parents are among
these definitions and the root is not reached.

Every chain ends in exactly one of three ways (`existsUnique_endsIn`): it reaches the root, it comes
to a definition whose parent is not known, or it comes back to a handle it has met. `lineage_cases`
says what the search for ancestors gives in each case.
-/

namespace ObjectGraph

/-- The definitions that a list of modules makes known. Of modules with one name the first is read,
and only if it can be scanned; of definitions with one handle the first is known, before all others
that of the root. -/
def Module.definitions (modules : List Module) : List TypeDefinition :=
  (TypeDefinition.root ::
    ((modules.eraseDupsBy fun m n => m.name == n.name).filter (·.scannable)).flatMap
      (·.types)).eraseDupsBy fun d e => d.handle == e.handle

theorem Module.nodup_handles (modules : List Module) :
    ((definitions modules).map (·.handle)).Nodup :=
  Entries.nodup_map_eraseDupsBy TypeDefinition.handle _

namespace Definitions

/-- Definitions under their handles. -/
abbrev ofList (ds : List TypeDefinition) : Definitions :=
  Entries.keyed TypeDefinition.handle ds

theorem distinctModules_eq (modules : List Module) :
    distinctModules modules = modules.eraseDupsBy fun m n => m.name == n.name := by
  rw [distinctModules, Entries.foldl_insertNew Module.name]
  simp

theorem ofModules_eq (modules : List Module) :
    ofModules modules = ofList (Module.definitions modules) := by
  rw [ofModules, distinctModules_eq, ← List.foldl_flatMap,
    Entries.foldl_insertNew TypeDefinition.handle]
  simp [Module.definitions, List.eraseDupsBy_cons, Entries.keyed, TypeDefinition.root]

section Chain

variable (ds : List TypeDefinition)

/-- The definition that a definition derives from, if it is known. The chain ends at the root. -/
def parentOf? (d : TypeDefinition) : Option TypeDefinition :=
  if d.handle = TypeHandle.root then none
  else d.parent.bind fun parent => ds.find? fun e => e.handle == parent

/-- The chain of parents leads from the first definition to the last one; the list has the
definitions that it meets on the way, without the first and with the last. -/
inductive Climbs : TypeDefinition → List TypeDefinition → TypeDefinition → Prop
  | here (d : TypeDefinition) : Climbs d [] d
  | up {d parent e : TypeDefinition} {path : List TypeDefinition} :
      parentOf? ds d = some parent → Climbs parent path e → Climbs d (parent :: path) e

/-- How a chain of parents ends. -/
inductive ChainEnd where
  /-- At the root. -/
  | root
  /-- At another definition, which has no parent or an unknown one. -/
  | outside
  /-- It comes back to a handle. -/
  | cycle
deriving DecidableEq, Repr

/-- The chain of parents of a definition ends in this way. -/
inductive EndsIn (d : TypeDefinition) : ChainEnd → Prop
  | root {path : List TypeDefinition} {e : TypeDefinition} :
      Climbs ds d path e → e.handle = TypeHandle.root → EndsIn d .root
  | outside {path : List TypeDefinition} {e : TypeDefinition} :
      Climbs ds d path e → e.handle ≠ TypeHandle.root → parentOf? ds e = none → EndsIn d .outside
  | cycle {path : List TypeDefinition} {e : TypeDefinition} :
      Climbs ds d path e → ¬ ((d :: path).map (·.handle)).Nodup → EndsIn d .cycle

end Chain

section Walk

variable {ds : List TypeDefinition} {d e p : TypeDefinition} {path : List TypeDefinition}

theorem parentOf?_root (h : d.handle = TypeHandle.root) : parentOf? ds d = none :=
  if_pos h

theorem handle_eq_of_find? {handle : TypeHandle}
    (h : ds.find? (fun e => e.handle == handle) = some p) : p.handle = handle := by
  have heq := List.find?_some h
  rwa [beq_iff_eq] at heq

/-- The parent of a type is the definition with the handle that the type derives from. -/
theorem parentOf?_eq_some_iff :
    parentOf? ds d = some p ↔
      d.handle ≠ TypeHandle.root ∧ d.parent = some p.handle ∧
        ds.find? (fun e => e.handle == p.handle) = some p := by
  rw [parentOf?]
  split
  · rename_i hroot
    simp [hroot]
  · rename_i hroot
    rw [Option.bind_eq_some_iff]
    constructor
    · rintro ⟨parent, hparent, hfind⟩
      obtain rfl := handle_eq_of_find? hfind
      exact ⟨hroot, hparent, hfind⟩
    · rintro ⟨-, hparent, hfind⟩
      exact ⟨p.handle, hparent, hfind⟩

theorem mem_of_parentOf? (h : parentOf? ds d = some p) : p ∈ ds :=
  List.mem_of_find?_eq_some (parentOf?_eq_some_iff.1 h).2.2

theorem Climbs.snoc (h : Climbs ds d path e) (hp : parentOf? ds e = some p) :
    Climbs ds d (path ++ [p]) p := by
  induction h with
  | here d => exact .up hp (.here p)
  | up hparent _ ih => exact .up hparent (ih hp)

theorem Climbs.subset (h : Climbs ds d path e) : ∀ f ∈ path, f ∈ ds := by
  induction h with
  | here d => simp
  | up hparent _ ih => exact List.forall_mem_cons.2 ⟨mem_of_parentOf? hparent, ih⟩

/-- From every definition on the way, the chain goes on to the same end. -/
theorem Climbs.exists_of_mem (h : Climbs ds d path e) {f : TypeDefinition} (hf : f ∈ path) :
    ∃ rest, Climbs ds f rest e ∧ rest.length < path.length := by
  induction h with
  | here d => cases hf
  | @up d parent e path hparent hrest ih =>
      rcases List.mem_cons.1 hf with rfl | hf
      · exact ⟨path, hrest, Nat.lt_succ_self _⟩
      · obtain ⟨rest, hclimbs, hlt⟩ := ih hf
        exact ⟨rest, hclimbs, Nat.lt_succ_of_lt hlt⟩

/-- A chain that has come to an end contains every other way up. -/
theorem Climbs.prefix_of_end (h : Climbs ds d path e) (hend : parentOf? ds e = none)
    {other : List TypeDefinition} {f : TypeDefinition} (h' : Climbs ds d other f) :
    other <+: path := by
  induction h' generalizing path with
  | here d => exact List.nil_prefix
  | up hparent _ ih =>
      cases h with
      | here =>
          rw [hend] at hparent
          cases hparent
      | up hparent' hrest =>
          rw [hparent] at hparent'
          cases hparent'
          exact List.cons_prefix_cons.2 ⟨rfl, ih hrest⟩

theorem Climbs.path_eq (h : Climbs ds d path e) (hend : parentOf? ds e = none)
    {other : List TypeDefinition} {f : TypeDefinition} (h' : Climbs ds d other f)
    (hend' : parentOf? ds f = none) : path = other :=
  (h'.prefix_of_end hend' h).eq_of_length_le (h.prefix_of_end hend h').length_le

/-- The path says where a climb ends. -/
theorem Climbs.end_eq (h : Climbs ds d path e) {f : TypeDefinition} (h' : Climbs ds d path f) :
    e = f := by
  induction h with
  | here d =>
      cases h'
      rfl
  | up _ _ ih =>
      cases h' with
      | up _ hrest => exact ih hrest

/-- A chain that comes to an end meets no handle twice: from a definition that it meets again it
would reach the end on two ways of different lengths. -/
theorem Climbs.nodup_of_end (hds : (ds.map (·.handle)).Nodup) (hd : d ∈ ds) (h : Climbs ds d path e)
    (hend : parentOf? ds e = none) : ((d :: path).map (·.handle)).Nodup := by
  induction h with
  | here d => exact List.nodup_singleton _
  | @up d parent e path hparent hrest ih =>
      rw [List.map_cons, List.nodup_cons]
      refine ⟨?_, ih (mem_of_parentOf? hparent) hend⟩
      intro hmem
      obtain ⟨f, hf, heq⟩ := List.mem_map.1 hmem
      have hclimbs : Climbs ds d (parent :: path) e := .up hparent hrest
      obtain rfl := List.inj_on_of_nodup_map hds (hclimbs.subset f hf) hd heq
      obtain ⟨rest, hback, hlt⟩ := hclimbs.exists_of_mem hf
      rw [hback.path_eq hend hclimbs hend] at hlt
      exact Nat.lt_irrefl _ hlt

/-- A chain ends in one way only. -/
theorem EndsIn.unique (hds : (ds.map (·.handle)).Nodup) (hd : d ∈ ds) {a b : ChainEnd}
    (ha : EndsIn ds d a) (hb : EndsIn ds d b) : a = b := by
  have hcycle : ∀ {path e}, Climbs ds d path e → parentOf? ds e = none → ¬ EndsIn ds d .cycle := by
    intro path e h hend hc
    cases hc with
    | cycle h' hdup =>
        refine hdup (List.Nodup.sublist ?_ (h.nodup_of_end hds hd hend))
        exact ((List.cons_prefix_cons.2 ⟨rfl, h.prefix_of_end hend h'⟩).sublist).map _
  have houtside : ∀ {path e}, Climbs ds d path e → e.handle = TypeHandle.root →
      ¬ EndsIn ds d .outside := by
    intro path e h hroot ho
    cases ho with
    | outside h' hne hend =>
        have hpath := h.path_eq (parentOf?_root hroot) h' hend
        subst hpath
        rw [← h.end_eq h'] at hne
        exact hne hroot
  cases ha with
  | root h hroot =>
      cases hb with
      | root => rfl
      | outside h' hne hend => exact absurd (.outside h' hne hend) (houtside h hroot)
      | cycle h' hdup => exact absurd (.cycle h' hdup) (hcycle h (parentOf?_root hroot))
  | outside h hne hend =>
      cases hb with
      | root h' hroot => exact absurd (.outside h hne hend) (houtside h' hroot)
      | outside => rfl
      | cycle h' hdup => exact absurd (.cycle h' hdup) (hcycle h hend)
  | cycle h hdup =>
      cases hb with
      | root h' hroot => exact absurd (.cycle h hdup) (hcycle h' (parentOf?_root hroot))
      | outside h' hne hend => exact absurd (.cycle h hdup) (hcycle h' hend)
      | cycle => rfl

end Walk

/-! ## The search for ancestors -/

section Search

variable {known remaining : Definitions} {type parent : TypeHandle} {d ancestor : TypeDefinition}

theorem climb_of_root (h : d.handle = TypeHandle.root) :
    climb known remaining type d = .ok (some []) := by
  rw [climb, if_pos h]

theorem climb_of_no_parent (h : d.handle ≠ TypeHandle.root) (hparent : d.parent = none) :
    climb known remaining type d = .ok none := by
  rw [climb, if_neg h, hparent]

/-- The search goes on with the parent, which does not remain after that. -/
theorem climb_of_remaining (h : d.handle ≠ TypeHandle.root) (hparent : d.parent = some parent)
    (hfound : Entries.get? parent remaining = some ancestor) :
    climb known remaining type d =
      (climb known (Entries.erase parent remaining) type ancestor).map
        (Option.map (ancestor :: ·)) := by
  rw [climb, if_neg h, hparent]
  -- The match keeps the lookup for the proof of termination, so `hfound` cannot be rewritten into
  -- it.
  dsimp only
  split
  · rename_i hsome
    rw [hfound] at hsome
    cases hsome
    rfl
  · rename_i hnone
    rw [hfound] at hnone
    cases hnone

/-- A parent that no longer remains was passed before, or was never defined. -/
theorem climb_of_gone (h : d.handle ≠ TypeHandle.root) (hparent : d.parent = some parent)
    (hgone : Entries.get? parent remaining = none) :
    climb known remaining type d =
      if Entries.contains parent known then .error (.inheritanceCycle type) else .ok none := by
  rw [climb, if_neg h, hparent]
  dsimp only
  split
  · rename_i hsome
    rw [hgone] at hsome
    cases hsome
  · rfl

end Search

section Lineage

variable {ds : List TypeDefinition}

/-- What the search for ancestors gives: the chain up to the root, nothing if the chain leaves the
known definitions, and a failure if the next parent is one that the search has used up. Then it is
not among the remaining definitions, or it was met since. -/
inductive SearchGives (ds : List TypeDefinition) (remaining : Definitions) (type : TypeHandle)
    (d : TypeDefinition) : Except RegistryError (Option (List TypeDefinition)) → Prop
  | root {path : List TypeDefinition} {e : TypeDefinition} :
      Climbs ds d path e → e.handle = TypeHandle.root →
        SearchGives ds remaining type d (.ok (some path))
  | outside {path : List TypeDefinition} {e : TypeDefinition} :
      Climbs ds d path e → e.handle ≠ TypeHandle.root → parentOf? ds e = none →
        SearchGives ds remaining type d (.ok none)
  | cycle {path : List TypeDefinition} {e p : TypeDefinition} :
      Climbs ds d path e → parentOf? ds e = some p →
        (Entries.get? p.handle remaining = none ∨ p.handle ∈ path.map (·.handle)) →
        SearchGives ds remaining type d (.error (.inheritanceCycle type))

/-- A search from a parent, without that parent, is a search from below it. -/
theorem SearchGives.up {remaining : Definitions} {type : TypeHandle} {d ancestor : TypeDefinition}
    {result : Except RegistryError (Option (List TypeDefinition))}
    (hkeys : (Entries.keys remaining).Nodup) (hup : parentOf? ds d = some ancestor)
    (h : SearchGives ds (Entries.erase ancestor.handle remaining) type ancestor result) :
    SearchGives ds remaining type d (result.map (Option.map (ancestor :: ·))) := by
  cases h with
  | root hclimbs hend => exact .root (.up hup hclimbs) hend
  | outside hclimbs hne hend => exact .outside (.up hup hclimbs) hne hend
  | @cycle path e p hclimbs hp hused =>
      refine .cycle (.up hup hclimbs) hp ?_
      rw [List.map_cons, List.mem_cons]
      rcases hused with hgone | hmet
      · rw [Entries.get?_erase hkeys] at hgone
        split at hgone
        · rename_i hsame
          exact .inr (.inl hsame.symm)
        · exact .inl hgone
      · exact .inr (.inr hmet)

/-- What the search gives, by induction on the definitions that remain. -/
theorem searchGives_climb {remaining : Definitions} (type : TypeHandle) (d : TypeDefinition)
    (hkeys : (Entries.keys remaining).Nodup)
    (hsub : ∀ handle e, Entries.get? handle remaining = some e →
      ds.find? (fun e => e.handle == handle) = some e) :
    SearchGives ds remaining type d (climb (ofList ds) remaining type d) := by
  -- The induction is on the definitions that remain: every step up takes one away.
  induction hn : remaining.length using Nat.strongRecOn generalizing remaining d with
  | ind n ih =>
    by_cases hroot : d.handle = TypeHandle.root
    · rw [climb_of_root hroot]
      exact .root (.here d) hroot
    cases hparent : d.parent with
    | none =>
        rw [climb_of_no_parent hroot hparent]
        refine .outside (.here d) hroot ?_
        rw [parentOf?, if_neg hroot, hparent, Option.bind_none]
    | some parent =>
        have hstep : parentOf? ds d = ds.find? fun e => e.handle == parent := by
          rw [parentOf?, if_neg hroot, hparent, Option.bind_some]
        cases hfound : Entries.get? parent remaining with
        | none =>
            rw [climb_of_gone hroot hparent hfound, Entries.contains, Entries.get?_keyed]
            cases hknown : ds.find? fun e => e.handle == parent with
            | none => exact .outside (.here d) hroot (hstep.trans hknown)
            | some p =>
                refine .cycle (.here d) (hstep.trans hknown) ?_
                rw [handle_eq_of_find? hknown]
                exact .inl hfound
        | some ancestor =>
            have hknown := hsub parent ancestor hfound
            obtain rfl := handle_eq_of_find? hknown
            have hsub' : ∀ handle e,
                Entries.get? handle (Entries.erase ancestor.handle remaining) = some e →
                  ds.find? (fun e => e.handle == handle) = some e := by
              intro handle e h
              rw [Entries.get?_erase hkeys] at h
              split at h
              · cases h
              · exact hsub handle e h
            rw [climb_of_remaining hroot hparent hfound]
            apply SearchGives.up hkeys (hstep.trans hknown)
            exact ih _ (hn ▸ length_erase_lt hfound) ancestor
              (Entries.nodup_keys_erase hkeys _) hsub' rfl

/-- The search for the chain of a known definition has three results, one for each way in which the
chain can end. -/
theorem lineage_cases (hds : (ds.map (·.handle)).Nodup) {d : TypeDefinition} :
    (∃ path e, Climbs ds d path e ∧ e.handle = TypeHandle.root ∧
      lineage (ofList ds) d = .ok (some (d :: path).reverse)) ∨
    (EndsIn ds d .outside ∧ lineage (ofList ds) d = .ok none) ∨
    (EndsIn ds d .cycle ∧ lineage (ofList ds) d = .error (.inheritanceCycle d.handle)) := by
  have hkeys : (Entries.keys (ofList ds)).Nodup := by
    rwa [Entries.keys_keyed]
  have hsub : ∀ handle e, Entries.get? handle (Entries.erase d.handle (ofList ds)) = some e →
      ds.find? (fun e => e.handle == handle) = some e := by
    intro handle e h
    rw [Entries.get?_erase hkeys, Entries.get?_keyed] at h
    split at h
    · cases h
    · exact h
  have hgives := searchGives_climb d.handle d (Entries.nodup_keys_erase hkeys d.handle) hsub
  rw [lineage]
  generalize climb (ofList ds) (Entries.erase d.handle (ofList ds)) d.handle d = result at hgives ⊢
  cases hgives with
  | @root path e hclimbs hend => exact .inl ⟨path, e, hclimbs, hend, rfl⟩
  | outside hclimbs hne hend => exact .inr (.inl ⟨.outside hclimbs hne hend, rfl⟩)
  | @cycle path e p hclimbs hp hused =>
    refine .inr (.inr ⟨.cycle (hclimbs.snoc hp) ?_, rfl⟩)
    -- What was used up at the start is the definition itself.
    have hmet : p.handle ∈ (d :: path).map (·.handle) := by
      rw [List.map_cons, List.mem_cons]
      rcases hused with hgone | hmet
      · rw [Entries.get?_erase hkeys, Entries.get?_keyed, (parentOf?_eq_some_iff.1 hp).2.2] at hgone
        split at hgone
        · rename_i hsame
          exact .inl hsame.symm
        · cases hgone
      · exact .inr hmet
    rw [← List.cons_append, List.map_append, List.map_singleton, List.nodup_append]
    intro hnodup
    exact hnodup.2.2 _ hmet _ (List.mem_singleton_self _) rfl

/-- Every chain of parents comes to exactly one of the three ends. -/
theorem existsUnique_endsIn (hds : (ds.map (·.handle)).Nodup) {d : TypeDefinition} (hd : d ∈ ds) :
    ∃! ending, EndsIn ds d ending := by
  have hexists : ∃ ending, EndsIn ds d ending := by
    rcases lineage_cases hds (d := d) with ⟨path, e, hclimbs, hroot, -⟩ | ⟨hends, -⟩ | ⟨hends, -⟩
    · exact ⟨.root, .root hclimbs hroot⟩
    · exact ⟨.outside, hends⟩
    · exact ⟨.cycle, hends⟩
  obtain ⟨ending, hends⟩ := hexists
  exact ⟨ending, hends, fun other hother => hother.unique hds hd hends⟩

end Lineage

end Definitions

end ObjectGraph
