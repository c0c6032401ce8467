import ObjectGraph.Proofs.Migration.Chain
import ObjectGraph.Proofs.Node.Reachable
import ObjectGraph.Proofs.Registry.Resolution
import ObjectGraph.Proofs.Version

/-!
# Migrations of nodes

A node records the version of its data in one of its own members, which every transform may rewrite,
remove or declare. `UpgraderTable.upgradeNode_records` says that the recorded version and the data
stay in step all the same: the result of a migration records the version that was reached, and a
complete one is left alone when it is migrated again.

The version is written only when it changed. A chain that has left its start is at a newer version
(`ChainAt.start_or_newer`), so where the version did not change no upgrader has run, and the node is
the one that was read.
-/

namespace ObjectGraph

namespace Node

/-- The version field can be read: it is missing or null, or it holds the text of a version. -/
def HasReadableVersion (n : Node) : Prop :=
  n.get? Name.schemaVersion = none ∨ n.get? Name.schemaVersion = some .null ∨
    ∃ s v, n.get? Name.schemaVersion = some (.string s) ∧ Version.ofText s = .ok v

theorem exists_schemaVersion_iff {n : Node} :
    (∃ v, n.schemaVersion = .ok v) ↔ n.HasReadableVersion := by
  rw [schemaVersion, HasReadableVersion]
  cases n.get? Name.schemaVersion with
  | none => simp
  | some value => cases value <;> simp

/-- Recording a version writes the version field and nothing else. -/
theorem written_setSchemaVersion (n : Node) (v : Version) :
    n.Written Name.schemaVersion (.string v.toText) (n.setSchemaVersion v) := by
  obtain ⟨previous, hset⟩ := n.set_schemaVersion v
  exact written_of_set hset

/-- The version that was recorded last is read back. -/
theorem schemaVersion_setSchemaVersion (n : Node) (v : Version) :
    (n.setSchemaVersion v).schemaVersion = .ok v := by
  rw [schemaVersion, (n.written_setSchemaVersion v).get?, if_pos rfl]
  exact Version.ofText_toText v

end Node

namespace UpgraderTable

section Results

variable {α : Type} {table : UpgraderTable α} {typeName : String}
  {current target : Version} {input : α}

/-- A chain is at its start, or at a newer version. -/
theorem ChainAt.start_or_newer {k : Nat} {v : Version} {x : α}
    (h : table.ChainAt typeName current input k v x) :
    (k = 0 ∧ v = current ∧ x = input) ∨ (0 < k ∧ current < v) := by
  -- The first link leads up from the start, every later one from a version that is newer already.
  induction h with
  | start => exact Or.inl ⟨rfl, rfl, rfl⟩
  | @next k v x y u _ hget _ ih =>
      have hup : v < u.target := (get?_eq_some hget).2.2.2
      refine Or.inr ⟨Nat.succ_pos k, ?_⟩
      rcases ih with ⟨-, rfl, -⟩ | ⟨-, hnewer⟩
      · exact hup
      · rw [Version.lt_iff_rank_lt] at hnewer hup ⊢
        exact Nat.lt_trans hnewer hup

/-- The result of a migration is a place on the chain; if it is complete, it is not before the
target. -/
structure Arrives (table : UpgraderTable α) (typeName : String) (current target : Version)
    (input : α) (outcome : Outcome α) : Prop where
  chain : table.ChainAt typeName current input outcome.steps outcome.version outcome.value
  typeName : outcome.typeName = typeName
  complete : outcome.phase = .complete → target ≤ outcome.version

/-- Data that is at the target already, or beyond it, is complete as it is. -/
theorem upgrade_of_le (table : UpgraderTable α) (input : α) (typeName : String)
    (h : target ≤ current) :
    table.upgrade input typeName current target =
      .ok ⟨input, .complete, current, target, 0, typeName⟩ := by
  rw [upgrade, follow, if_neg (Version.not_lt_iff_le.2 h)]

/-- Where a migration that does not fail arrives. -/
theorem arrives_of_upgrade {outcome : Outcome α}
    (h : table.upgrade input typeName current target = .ok outcome) :
    table.Arrives typeName current target input outcome := by
  rcases Version.lt_or_le current target with hlt | hle
  · have hstart := Version.le_of_lt hlt
    obtain ⟨k, v, x, ending, hfirst⟩ := exists_firstEnd table typeName input hstart
    rw [hfirst.upgrade_eq hstart] at h
    -- Only two of the four ways to end are results.
    cases hfirst.ends with
    | complete heq =>
        subst heq
        cases h
        exact ⟨hfirst.chain, rfl, fun _ => Version.le_iff_rank_le.2 (Nat.le_refl _)⟩
    | stalled =>
        cases h
        exact ⟨hfirst.chain, rfl, fun hphase => nomatch hphase⟩
    | overshoot | failed => cases h
  · rw [upgrade_of_le table input typeName hle] at h
    cases h
    exact ⟨.start, rfl, fun _ => hle⟩

/-- A migration that fails does so at an upgrader: it leads too far, or its transform fails. -/
theorem upgrade_ne_invalidVersion (table : UpgraderTable α) (input : α) (typeName : String)
    (current target : Version) (name : String) (cause : Version.ParseError) :
    table.upgrade input typeName current target ≠ .error (.invalidVersion name cause) := by
  rcases Version.lt_or_le current target with hlt | hle
  · have hstart := Version.le_of_lt hlt
    obtain ⟨k, v, x, ending, hfirst⟩ := exists_firstEnd table typeName input hstart
    rw [hfirst.upgrade_eq hstart]
    cases ending <;> exact nofun
  · rw [upgrade_of_le table input typeName hle]
    exact nofun

end Results

section Nodes

variable {table : UpgraderTable Node} {index : Index} {n : Node} {target : Version}

theorem upgradeNode_of_unreadable (table : UpgraderTable Node) (index : Index) (target : Version)
    {cause : Version.ParseError} (h : n.schemaVersion = .error cause) :
    table.upgradeNode index n target =
      .error (.invalidVersion (index.resolve n.typeName).canonicalName cause) := by
  simp only [upgradeNode, h]

/-- A node at the target already, or beyond it, is complete as it is. -/
theorem upgradeNode_of_le (table : UpgraderTable Node) (index : Index) {current : Version}
    (h : n.schemaVersion = .ok current) (hle : target ≤ current) :
    table.upgradeNode index n target =
      .ok ⟨n, .complete, current, target, 0, (index.resolve n.typeName).canonicalName⟩ := by
  simp only [upgradeNode, h, upgrade_of_le table n _ hle, ok_bind, if_true]
  rfl

/-- A version that can be read is never reported as unreadable. -/
theorem upgradeNode_ne_invalidVersion (table : UpgraderTable Node) (index : Index)
    (target : Version) {current : Version} (h : n.schemaVersion = .ok current) (name : String)
    (cause : Version.ParseError) :
    table.upgradeNode index n target ≠ .error (.invalidVersion name cause) := by
  simp only [upgradeNode, h]
  have hne := table.upgrade_ne_invalidVersion n (index.resolve n.typeName).canonicalName
    current target name cause
  cases hupgrade : table.upgrade n (index.resolve n.typeName).canonicalName current target with
  | error e =>
      rw [hupgrade] at hne
      exact hne
  | ok reached =>
      rw [ok_bind]
      split <;> exact nofun

/-- A migrated node comes from the end of the chain, with the version that was reached recorded in
it if it is another than before. -/
theorem upgradeNode_eq_ok {outcome : Outcome Node}
    (h : table.upgradeNode index n target = .ok outcome) :
    ∃ current reached, n.schemaVersion = .ok current ∧
      table.Arrives (index.resolve n.typeName).canonicalName current target n reached ∧
      outcome = if reached.version = current then reached
        else { reached with value := reached.value.setSchemaVersion reached.version } := by
  cases hread : n.schemaVersion with
  | error cause =>
      rw [upgradeNode_of_unreadable table index target hread] at h
      cases h
  | ok current =>
      simp only [upgradeNode, hread] at h
      obtain ⟨reached, hupgrade, hwrite⟩ := bind_eq_ok_iff.1 h
      refine ⟨current, reached, rfl, arrives_of_upgrade hupgrade, ?_⟩
      split at hwrite
      case isTrue hsame => rw [if_pos hsame, pure_eq_ok_iff.1 hwrite]
      case isFalse hother => rw [if_neg hother, pure_eq_ok_iff.1 hwrite]

/-- A migration fails for the version field exactly when the field cannot be read, and then it fails
alike whatever upgraders there are. Otherwise its result records the version that was reached,
belongs to the type that the node's chain resolves to, and is the node itself if no upgrader ran.
What is complete is left alone when it is migrated again, also where a transform has changed its
type. -/
theorem upgradeNode_records (table : UpgraderTable Node) (index : Index) (n : Node)
    (target : Version) :
    ((∃ name cause, table.upgradeNode index n target = .error (.invalidVersion name cause)) ↔
      ¬ n.HasReadableVersion) ∧
    (¬ n.HasReadableVersion → ∃ cause, ∀ other : UpgraderTable Node,
      other.upgradeNode index n target =
        .error (.invalidVersion (index.resolve n.typeName).canonicalName cause)) ∧
    ∀ outcome, table.upgradeNode index n target = .ok outcome →
      outcome.value.schemaVersion = .ok outcome.version ∧
      outcome.typeName = (index.resolve n.typeName).canonicalName ∧
      (outcome.steps = 0 → outcome.value = n) ∧
      (outcome.phase = .complete →
        ∃ again, table.upgradeNode index outcome.value target = .ok again ∧
          again.phase = .complete ∧ again.value = outcome.value ∧ again.steps = 0) := by
  rw [← Node.exists_schemaVersion_iff]
  have hunreadable : (¬ ∃ v, n.schemaVersion = .ok v) →
      ∃ cause, n.schemaVersion = .error cause := by
    intro hnone
    cases hread : n.schemaVersion with
    | error cause => exact ⟨cause, rfl⟩
    | ok v => exact absurd ⟨v, hread⟩ hnone
  refine ⟨⟨?_, ?_⟩, ?_, ?_⟩
  · rintro ⟨name, cause, hfails⟩ ⟨current, hread⟩
    exact upgradeNode_ne_invalidVersion table index target hread name cause hfails
  · intro hnone
    obtain ⟨cause, hread⟩ := hunreadable hnone
    exact ⟨_, cause, upgradeNode_of_unreadable table index target hread⟩
  · intro hnone
    obtain ⟨cause, hread⟩ := hunreadable hnone
    exact ⟨cause, fun other => upgradeNode_of_unreadable other index target hread⟩
  · intro outcome houtcome
    obtain ⟨current, reached, hread, harrives, rfl⟩ := upgradeNode_eq_ok houtcome
    -- A transform may have changed the type, so the second run may follow another chain; but it is
    -- at the target before the first link.
    have hagain : ∀ m : Node, m.schemaVersion = .ok reached.version → reached.phase = .complete →
        ∃ again, table.upgradeNode index m target = .ok again ∧ again.phase = .complete ∧
          again.value = m ∧ again.steps = 0 :=
      fun m hm hphase =>
        ⟨_, upgradeNode_of_le table index hm (harrives.complete hphase), rfl, rfl, rfl⟩
    rcases harrives.chain.start_or_newer with ⟨hsteps, hversion, hvalue⟩ | ⟨hsteps, hnewer⟩
    · -- No upgrader ran: the version is the one that was read, and the node is not written to.
      rw [if_pos hversion]
      have hrecorded : reached.value.schemaVersion = .ok reached.version := by
        rw [hvalue, hversion, hread]
      exact ⟨hrecorded, harrives.typeName, fun _ => hvalue, hagain _ hrecorded⟩
    · -- The version went up, so it is written after the last transform, whatever that did to the
      -- field.
      rw [if_neg (Version.ne_of_lt hnewer).symm]
      have hrecorded := reached.value.schemaVersion_setSchemaVersion reached.version
      exact ⟨hrecorded, harrives.typeName, fun hzero => absurd hzero (Nat.pos_iff_ne_zero.1 hsteps),
        hagain _ hrecorded⟩

end Nodes

/-- Declares the version field and gives the node another type. -/
def retyping (n : Node) : Node :=
  { n.declare Name.schemaVersion with typeName := "Kit.Gate" }

/-- One upgrader for nodes that the index does not know. -/
def retypingTable : UpgraderTable Node where
  entries := [Upgrader.infallible "Base" ⟨1, 0, 0⟩ ⟨2, 0, 0⟩ retyping]
  increasing := by decide

/-- A wall without a version field. -/
def sampleWall : Node := Node.new "Kit.Wall"

/-- What the upgrader makes of the wall. -/
def sampleGate : Node := (retyping sampleWall).setSchemaVersion ⟨2, 0, 0⟩

/-- A version is a text, not a number. -/
def sampleNumbered : Node := { Node.new "Kit.Wall" with dynamic := [(Name.schemaVersion, .int 2)] }

/-- One upgrader runs and reaches the target. -/
theorem upgrade_sampleWall : retypingTable.upgrade sampleWall "Base" ⟨1, 0, 0⟩ ⟨2, 0, 0⟩ =
    .ok ⟨retyping sampleWall, .complete, ⟨2, 0, 0⟩, ⟨2, 0, 0⟩, 1, "Base"⟩ := by
  have hlt : (⟨1, 0, 0⟩ : Version) < ⟨2, 0, 0⟩ := by decide
  have hle : (⟨2, 0, 0⟩ : Version) ≤ ⟨2, 0, 0⟩ := by decide
  have hget : retypingTable.get? "Base" ⟨1, 0, 0⟩ =
      some (Upgrader.infallible "Base" ⟨1, 0, 0⟩ ⟨2, 0, 0⟩ retyping) := rfl
  rw [upgrade, follow_of_next hlt hget hle rfl]
  exact follow_of_endsBy hle (.complete rfl)

/-- A wall becomes a gate, with the version recorded in the member that the upgrader has declared;
as a gate it is complete again. -/
theorem upgradeNode_sampleWall :
    retypingTable.upgradeNode .gateIndex sampleWall ⟨2, 0, 0⟩ =
        .ok ⟨sampleGate, .complete, ⟨2, 0, 0⟩, ⟨2, 0, 0⟩, 1, "Base"⟩ ∧
      sampleGate.schemaVersion = .ok ⟨2, 0, 0⟩ ∧
      (∃ again, retypingTable.upgradeNode .gateIndex sampleGate ⟨2, 0, 0⟩ = .ok again ∧
        again.phase = .complete ∧ again.value = sampleGate ∧ again.steps = 0) ∧
      ∃ cause, retypingTable.upgradeNode .gateIndex sampleNumbered ⟨2, 0, 0⟩ =
        .error (.invalidVersion "Base" cause) := by
  have hname : (Index.gateIndex.resolve "Kit.Wall").canonicalName = "Base" := by decide +kernel
  have hread : sampleWall.schemaVersion = .ok ⟨1, 0, 0⟩ := rfl
  have hrun : retypingTable.upgradeNode .gateIndex sampleWall ⟨2, 0, 0⟩ =
      .ok ⟨sampleGate, .complete, ⟨2, 0, 0⟩, ⟨2, 0, 0⟩, 1, "Base"⟩ := by
    have hchain : (Index.gateIndex.resolve sampleWall.typeName).canonicalName = "Base" := hname
    simp only [upgradeNode, hread, hchain, upgrade_sampleWall]
    rfl
  have hunread : ¬ sampleNumbered.HasReadableVersion := by
    rintro (h | h | ⟨s, v, h, -⟩) <;> exact nomatch h
  obtain ⟨-, -, hresult⟩ := upgradeNode_records retypingTable .gateIndex sampleWall ⟨2, 0, 0⟩
  obtain ⟨-, hfails, -⟩ := upgradeNode_records retypingTable .gateIndex sampleNumbered ⟨2, 0, 0⟩
  obtain ⟨hrecorded, -, -, hagain⟩ := hresult _ hrun
  obtain ⟨cause, hfails⟩ := hfails hunread
  refine ⟨hrun, hrecorded, hagain rfl, cause, ?_⟩
  rw [hfails retypingTable]
  exact congrArg _ (congrArg (MigrationError.invalidVersion · cause) hname)

end UpgraderTable

end ObjectGraph
