import ObjectGraph.Proofs.Migration.Chain
import ObjectGraph.Proofs.Result

/-!
# Migrations in stages

Whether an upgrader may run depends on the target, since it must not lead beyond it. A migration to
a nearer target still takes the same steps as one to a farther target, for as long as it goes: what
is within the nearer target is within the farther one (`UpgraderTable.follow_farther`). So a
migration can be made in stages, and where it stalls or a transform fails on the way it does so for
every farther target as well (`UpgraderTable.upgrade_in_stages`). An upgrader that overshoots the
nearer target is the one case where nothing follows, as it may well be within the farther one.
-/

namespace ObjectGraph

namespace Version

theorem le_trans {a b c : Version} (hab : a ≤ b) (hbc : b ≤ c) : a ≤ c := by
  rw [le_iff_rank_le] at hab hbc ⊢
  exact Nat.le_trans hab hbc

theorem lt_of_lt_of_le {a b c : Version} (hab : a < b) (hbc : b ≤ c) : a < c := by
  rw [lt_iff_rank_lt] at hab ⊢
  exact Nat.lt_of_lt_of_le hab (le_iff_rank_le.1 hbc)

end Version

/-- The same result, with the upgraders counted that ran before it was begun. -/
def Outcome.after {α : Type} (ran : Nat) (o : Outcome α) : Outcome α :=
  { o with steps := o.steps + ran }

namespace UpgraderTable

variable {α : Type} {table : UpgraderTable α} {typeName : String}
  {target near far v : Version} {x : α} {k : Nat}

/-- A migration does the same whatever ran before it. -/
theorem follow_after (ran : Nat) :
    table.follow typeName target v x (k + ran) =
      (table.follow typeName target v x k).map (Outcome.after ran) := by
  fun_induction follow table typeName target v x k with
  | case1 v x k hlt hget =>
      rw [follow_of_none hlt hget]
      rfl
  | case2 v x k hlt u hget hbeyond =>
      rw [follow_of_some hlt hget, if_pos hbeyond]
      rfl
  | case3 v x k hlt u hget hwithin reason htransform =>
      rw [follow_of_some hlt hget, if_neg hwithin, htransform]
      rfl
  | case4 v x k hlt u hget hwithin y htransform ih =>
      rw [follow_of_next hlt hget (Version.not_lt_iff_le.1 hwithin) htransform,
        Nat.add_right_comm, ih]
  | case5 v x k hge =>
      rw [follow, if_neg hge]
      rfl

/-- Goes on from the result for a nearer target: a complete one is taken farther by the upgraders
that follow, a stalled one stays as it is. -/
def goOn (table : UpgraderTable α) (typeName : String) (near far : Version) (o : Outcome α) :
    Except MigrationError (Outcome α) :=
  if o.phase = .complete then table.follow typeName far near o.value o.steps
  else .ok { o with target := far }

theorem goOn_of_complete {o : Outcome α} (h : o.phase = .complete) :
    table.goOn typeName near far o = table.follow typeName far near o.value o.steps :=
  if_pos h

theorem goOn_of_stalled {o : Outcome α} (h : o.phase = .stalled) :
    table.goOn typeName near far o = .ok { o with target := far } := by
  rw [goOn, h, if_neg (by decide)]

/-- A migration to a farther target begins with the one to the nearer target, unless that is
overshot. -/
theorem follow_farther (hv : v ≤ near) (hfar : near ≤ far)
    (hovershoot : ∀ source reached,
      table.follow typeName near v x k ≠ .error (.overshoot typeName source reached near)) :
    table.follow typeName far v x k =
      table.follow typeName near v x k >>= table.goOn typeName near far := by
  -- The induction is along the chain towards the nearer target; every test there has the same
  -- answer as for the farther one, except the last.
  fun_induction follow table typeName near v x k with
  | case1 v x k hlt hget =>
      rw [follow_of_none (Version.lt_of_lt_of_le hlt hfar) hget, ok_bind, goOn_of_stalled rfl]
  | case2 v x k hlt u hget hbeyond => exact absurd rfl (hovershoot v u.target)
  | case3 v x k hlt u hget hwithin reason htransform =>
      have hle : u.target ≤ far := Version.le_trans (Version.not_lt_iff_le.1 hwithin) hfar
      rw [follow_of_some (Version.lt_of_lt_of_le hlt hfar) hget,
        if_neg (Version.not_lt_iff_le.2 hle), htransform, error_bind]
  | case4 v x k hlt u hget hwithin y htransform ih =>
      have hnear : u.target ≤ near := Version.not_lt_iff_le.1 hwithin
      rw [follow_of_next (Version.lt_of_lt_of_le hlt hfar) hget
        (Version.le_trans hnear hfar) htransform]
      exact ih hnear hovershoot
  | case5 v x k hge =>
      have hreached : v = near :=
        Decidable.byContradiction fun hne => hge (Version.lt_of_le_of_ne hv hne)
      rw [hreached, ok_bind, goOn_of_complete rfl]

/-- Let the nearer target be between the version of the data and the farther target. Where the
migration to the nearer target is complete, the one to the farther target is the one that goes on
from there, with the steps of both, or it fails like that one. Where the first is stalled, or a
transform of it fails, the migration to the farther target ends in the same way at the same
place. -/
theorem upgrade_in_stages (table : UpgraderTable α) (input : α) (typeName : String)
    {current near far : Version} (hnear : current ≤ near) (hfar : near ≤ far) :
    (∀ o, table.upgrade input typeName current near = .ok o → o.phase = .complete →
      table.upgrade input typeName current far =
        (table.upgrade o.value typeName near far).map (Outcome.after o.steps)) ∧
    (∀ o, table.upgrade input typeName current near = .ok o → o.phase = .stalled →
      table.upgrade input typeName current far = .ok { o with target := far }) ∧
    ∀ name source reached reason,
      table.upgrade input typeName current near =
        .error (.transformFailed name source reached reason) →
        table.upgrade input typeName current far =
          .error (.transformFailed name source reached reason) := by
  have hgoes : ∀ {result}, table.upgrade input typeName current near = result →
      (∀ source reached, result ≠ .error (.overshoot typeName source reached near)) →
        table.upgrade input typeName current far = result >>= table.goOn typeName near far := by
    rintro result rfl hovershoot
    exact follow_farther hnear hfar hovershoot
  refine ⟨?_, ?_, ?_⟩
  · intro o hresult hcomplete
    rw [hgoes hresult (by intros; simp), ok_bind, goOn_of_complete hcomplete, upgrade,
      ← follow_after, Nat.zero_add]
  · intro o hresult hstalled
    rw [hgoes hresult (by intros; simp), ok_bind, goOn_of_stalled hstalled]
  · intro name source reached reason hresult
    rw [hgoes hresult (by intros; simp), error_bind]

/-- Walls in three versions, and doors in two of them. The last upgrader fails. -/
def sampleStages : UpgraderTable Nat where
  entries := [
    .infallible "Kit.Wall" ⟨1, 0, 0⟩ ⟨2, 0, 0⟩ (· + 1),
    .infallible "Kit.Wall" ⟨2, 0, 0⟩ ⟨3, 0, 0⟩ (· * 10),
    .infallible "Kit.Door" ⟨1, 0, 0⟩ ⟨2, 0, 0⟩ (· + 1),
    ⟨"Kit.Wall", ⟨3, 0, 0⟩, ⟨3, 1, 0⟩, fun _ => .error "no height"⟩]
  increasing := by decide

/-- A wall is taken to the second version and from there to the third, a door stalls at the second,
and the wall's way to the fourth fails after the third. -/
theorem upgrade_sampleStages :
    (⟨1, 0, 0⟩ : Version) ≤ ⟨2, 0, 0⟩ ∧ (⟨2, 0, 0⟩ : Version) ≤ ⟨3, 0, 0⟩ ∧
      sampleStages.upgrade 5 "Kit.Wall" ⟨1, 0, 0⟩ ⟨2, 0, 0⟩ =
        .ok ⟨6, .complete, ⟨2, 0, 0⟩, ⟨2, 0, 0⟩, 1, "Kit.Wall"⟩ ∧
      sampleStages.upgrade 5 "Kit.Wall" ⟨1, 0, 0⟩ ⟨3, 0, 0⟩ =
        (sampleStages.upgrade 6 "Kit.Wall" ⟨2, 0, 0⟩ ⟨3, 0, 0⟩).map (Outcome.after 1) ∧
      (⟨1, 0, 0⟩ : Version) ≤ ⟨3, 1, 0⟩ ∧ (⟨3, 1, 0⟩ : Version) ≤ ⟨4, 0, 0⟩ ∧
      sampleStages.upgrade 5 "Kit.Door" ⟨1, 0, 0⟩ ⟨3, 1, 0⟩ =
        .ok ⟨6, .stalled, ⟨2, 0, 0⟩, ⟨3, 1, 0⟩, 1, "Kit.Door"⟩ ∧
      sampleStages.upgrade 5 "Kit.Door" ⟨1, 0, 0⟩ ⟨4, 0, 0⟩ =
        .ok ⟨6, .stalled, ⟨2, 0, 0⟩, ⟨4, 0, 0⟩, 1, "Kit.Door"⟩ ∧
      sampleStages.upgrade 5 "Kit.Wall" ⟨1, 0, 0⟩ ⟨3, 1, 0⟩ =
        .error (.transformFailed "Kit.Wall" ⟨3, 0, 0⟩ ⟨3, 1, 0⟩ "no height") ∧
      sampleStages.upgrade 5 "Kit.Wall" ⟨1, 0, 0⟩ ⟨4, 0, 0⟩ =
        .error (.transformFailed "Kit.Wall" ⟨3, 0, 0⟩ ⟨3, 1, 0⟩ "no height") := by
  have hfirst : sampleStages.upgrade 5 "Kit.Wall" ⟨1, 0, 0⟩ ⟨2, 0, 0⟩ =
      .ok ⟨6, .complete, ⟨2, 0, 0⟩, ⟨2, 0, 0⟩, 1, "Kit.Wall"⟩ := by cbv
  have hdoor : sampleStages.upgrade 5 "Kit.Door" ⟨1, 0, 0⟩ ⟨3, 1, 0⟩ =
      .ok ⟨6, .stalled, ⟨2, 0, 0⟩, ⟨3, 1, 0⟩, 1, "Kit.Door"⟩ := by cbv
  have hfails : sampleStages.upgrade 5 "Kit.Wall" ⟨1, 0, 0⟩ ⟨3, 1, 0⟩ =
      .error (.transformFailed "Kit.Wall" ⟨3, 0, 0⟩ ⟨3, 1, 0⟩ "no height") := by cbv
  have hnear : (⟨1, 0, 0⟩ : Version) ≤ ⟨2, 0, 0⟩ := by decide
  have hfar : (⟨2, 0, 0⟩ : Version) ≤ ⟨3, 0, 0⟩ := by decide
  have hmost : (⟨1, 0, 0⟩ : Version) ≤ ⟨3, 1, 0⟩ := by decide
  have hlast : (⟨3, 1, 0⟩ : Version) ≤ ⟨4, 0, 0⟩ := by decide
  obtain ⟨hcomplete, -, -⟩ := upgrade_in_stages sampleStages 5 "Kit.Wall" hnear hfar
  obtain ⟨-, hstalled, -⟩ := upgrade_in_stages sampleStages 5 "Kit.Door" hmost hlast
  obtain ⟨-, -, hfailed⟩ := upgrade_in_stages sampleStages 5 "Kit.Wall" hmost hlast
  exact ⟨hnear, hfar, hfirst, hcomplete _ hfirst rfl, hmost, hlast, hdoor, hstalled _ hdoor rfl,
    hfails, hfailed _ _ _ _ hfails⟩

end UpgraderTable

end ObjectGraph
