import ObjectGraph.Migration

/-!
# Migrations along a chain

The chain of a type from a version and a value is stated step by step: the upgrader that starts at
the version takes the value on to its own target (`ChainAt`). Where the chain ends, and why, is
tested in a fixed order: the target is reached, no upgrader starts here, the upgrader leads beyond
the target, its transform fails (`EndsBy`).

`UpgraderTable.upgrade_follows_chain` says that every migration comes to an end, that its result is
the one that belongs to the first end of the chain (`FirstEnd`), with as many steps as upgraders
before it, and that it does not depend on any transform outside that part of the chain. The chain
goes up strictly, because every upgrader of a table leads to a newer version, and below the target
there are only finitely many versions.
-/

namespace ObjectGraph

namespace Version

/-- The rank tells versions apart. -/
theorem eq_of_rank_eq {a b : Version} (h : a.rank = b.rank) : a = b := by
  obtain ⟨a1, a2, a3⟩ := a
  obtain ⟨b1, b2, b3⟩ := b
  have ha2 := a2.toNat_lt
  have ha3 := a3.toNat_lt
  have hb2 := b2.toNat_lt
  have hb3 := b3.toNat_lt
  -- The components are the digits of the rank in a base that all of them are below.
  simp only [rank, componentCount] at h
  simp only [mk.injEq, ← UInt32.toNat_inj]
  omega

theorem lt_of_le_of_ne {a b : Version} (hle : a ≤ b) (hne : a ≠ b) : a < b := by
  rw [lt_iff_rank_lt]
  have hrank : a.rank ≠ b.rank := fun h => hne (eq_of_rank_eq h)
  have hle' := le_iff_rank_le.1 hle
  omega

theorem ne_of_lt {a b : Version} (h : a < b) : a ≠ b := by
  rintro rfl
  exact Nat.lt_irrefl _ (lt_iff_rank_lt.1 h)

theorem le_of_lt {a b : Version} (h : a < b) : a ≤ b :=
  le_iff_rank_le.2 (Nat.le_of_lt (lt_iff_rank_lt.1 h))

theorem not_lt_iff_le {a b : Version} : ¬ a < b ↔ b ≤ a :=
  Iff.rfl

theorem lt_or_le (a b : Version) : a < b ∨ b ≤ a :=
  Decidable.em (a < b)

end Version

namespace UpgraderTable

variable {α : Type}

section Chain

variable (table : UpgraderTable α) (typeName : String)

/-- The chain of a type from a version and a value: after that many upgraders it is at that version
and has made that value. -/
inductive ChainAt (start : Version) (input : α) : Nat → Version → α → Prop
  | start : ChainAt start input 0 start input
  | next {k : Nat} {v : Version} {x y : α} {u : Upgrader α} :
      ChainAt start input k v x → table.get? typeName v = some u → u.transform x = .ok y →
        ChainAt start input (k + 1) u.target y

/-- Why a migration goes no further. -/
inductive Ending where
  | complete
  | stalled
  /-- The next upgrader leads to a version beyond the target. -/
  | overshoot (reached : Version)
  /-- The transform of the next upgrader fails. -/
  | failed (reached : Version) (reason : String)

/-- Why a migration ends at a version with a value. The tests come in this order: each holds only
where those before it do not. -/
inductive EndsBy (target v : Version) (x : α) : Ending → Prop
  | complete : v = target → EndsBy target v x .complete
  | stalled : v ≠ target → table.get? typeName v = none → EndsBy target v x .stalled
  | overshoot {u : Upgrader α} :
      v ≠ target → table.get? typeName v = some u → target < u.target →
        EndsBy target v x (.overshoot u.target)
  | failed {u : Upgrader α} {reason : String} :
      v ≠ target → table.get? typeName v = some u → u.target ≤ target →
        u.transform x = .error reason → EndsBy target v x (.failed u.target reason)

/-- What a migration returns that ends at a version with a value, after that many steps. -/
def Ending.result (target v : Version) (x : α) (k : Nat) :
    Ending → Except MigrationError (Outcome α)
  | .complete => .ok ⟨x, .complete, target, target, k, typeName⟩
  | .stalled => .ok ⟨x, .stalled, v, target, k, typeName⟩
  | .overshoot reached => .error (.overshoot typeName v reached target)
  | .failed reached reason => .error (.transformFailed typeName v reached reason)

/-- The first place on the chain where a migration ends. -/
structure FirstEnd (target start : Version) (input : α) (k : Nat) (v : Version) (x : α)
    (ending : Ending) : Prop where
  chain : table.ChainAt typeName start input k v x
  ends : table.EndsBy typeName target v x ending
  first : ∀ j w z other, j < k → table.ChainAt typeName start input j w z →
    ¬ table.EndsBy typeName target w z other

end Chain

section Follow

variable {table : UpgraderTable α} {typeName : String} {target start v : Version}
  {input x : α} {k : Nat}

/-- A chain has one version and one value after each number of steps. -/
theorem ChainAt.unique {w : Version} {z : α} (h : table.ChainAt typeName start input k v x)
    (h' : table.ChainAt typeName start input k w z) : v = w ∧ x = z := by
  induction h generalizing w z with
  | start =>
      cases h'
      exact ⟨rfl, rfl⟩
  | next _ hget htransform ih =>
      cases h' with
      | next hprev hget' htransform' =>
          obtain ⟨rfl, rfl⟩ := ih hprev
          rw [hget] at hget'
          cases hget'
          rw [htransform] at htransform'
          cases htransform'
          exact ⟨rfl, rfl⟩

/-- Where a migration does not end, an upgrader within the target makes a new value. -/
theorem exists_next (h : ∀ ending, ¬ table.EndsBy typeName target v x ending) :
    v ≠ target ∧ ∃ u y, table.get? typeName v = some u ∧ u.target ≤ target ∧
      u.transform x = .ok y := by
  have hne : v ≠ target := fun heq => h .complete (.complete heq)
  refine ⟨hne, ?_⟩
  cases hget : table.get? typeName v with
  | none => exact absurd (.stalled hne hget) (h .stalled)
  | some u =>
      have hwithin : u.target ≤ target := by
        rcases Version.lt_or_le target u.target with hlt | hle
        · exact absurd (.overshoot hne hget hlt) (h (.overshoot u.target))
        · exact hle
      cases htransform : u.transform x with
      | error reason =>
          exact absurd (.failed hne hget hwithin htransform) (h (.failed u.target reason))
      | ok y => exact ⟨u, y, rfl, hwithin, htransform⟩

/-- Without a next upgrader the migration stalls. -/
theorem follow_of_none (hlt : v < target) (hget : table.get? typeName v = none) :
    table.follow typeName target v x k = .ok ⟨x, .stalled, v, target, k, typeName⟩ := by
  rw [follow, if_pos hlt]
  -- The match keeps the lookup for the proof of termination, so `hget` cannot be rewritten into it.
  split
  · rfl
  · rename_i hsome
    rw [hget] at hsome
    cases hsome

/-- With a next upgrader the target is compared first, then the transform runs, then the chain is
followed further. -/
theorem follow_of_some {u : Upgrader α} (hlt : v < target) (hget : table.get? typeName v = some u) :
    table.follow typeName target v x k =
      if target < u.target then .error (.overshoot typeName v u.target target)
      else match u.transform x with
        | .error reason => .error (.transformFailed typeName v u.target reason)
        | .ok y => table.follow typeName target u.target y (k + 1) := by
  rw [follow, if_pos hlt]
  split
  · rename_i hnone
    rw [hget] at hnone
    cases hnone
  · rename_i hsome
    rw [hget] at hsome
    cases hsome
    rfl

/-- What a migration returns at an end of the chain. -/
theorem follow_of_endsBy {ending : Ending} (hle : v ≤ target)
    (h : table.EndsBy typeName target v x ending) :
    table.follow typeName target v x k = ending.result typeName target v x k := by
  cases h with
  | complete heq =>
      subst heq
      rw [follow, if_neg fun hlt => Version.ne_of_lt hlt rfl]
      rfl
  | stalled hne hget => exact follow_of_none (Version.lt_of_le_of_ne hle hne) hget
  | overshoot hne hget hbeyond =>
      rw [follow_of_some (Version.lt_of_le_of_ne hle hne) hget, if_pos hbeyond]
      rfl
  | failed hne hget hwithin htransform =>
      rw [follow_of_some (Version.lt_of_le_of_ne hle hne) hget,
        if_neg (Version.not_lt_iff_le.2 hwithin), htransform]
      rfl

/-- Where a migration does not end, it goes on from what the upgrader made. -/
theorem follow_of_next {u : Upgrader α} {y : α} (hlt : v < target)
    (hget : table.get? typeName v = some u) (hwithin : u.target ≤ target)
    (htransform : u.transform x = .ok y) :
    table.follow typeName target v x k = table.follow typeName target u.target y (k + 1) := by
  rw [follow_of_some hlt hget, if_neg (Version.not_lt_iff_le.2 hwithin), htransform]

/-- As long as the chain has not ended, it stays within the target, and the migration is where the
chain is. -/
theorem ChainAt.follow_eq (h : table.ChainAt typeName start input k v x) (hstart : start ≤ target)
    (hgoes : ∀ j w z ending, j < k → table.ChainAt typeName start input j w z →
      ¬ table.EndsBy typeName target w z ending) :
    v ≤ target ∧
      table.follow typeName target start input 0 = table.follow typeName target v x k := by
  induction h with
  | start => exact ⟨hstart, rfl⟩
  | @next k v x y u hprev hget htransform ih =>
      obtain ⟨hle, hfollow⟩ := ih fun j w z ending hj => hgoes j w z ending (Nat.lt_succ_of_lt hj)
      -- The chain has not ended at its last place either, so the link from there is within the
      -- target.
      have hgo := exists_next fun ending => hgoes k v x ending (Nat.lt_succ_self k) hprev
      obtain ⟨hne, u', y', hget', hwithin, -⟩ := hgo
      rw [hget] at hget'
      cases hget'
      have hlt := Version.lt_of_le_of_ne hle hne
      exact ⟨hwithin, hfollow.trans (follow_of_next hlt hget hwithin htransform)⟩

/-- The migration returns what belongs to the first end of the chain. -/
theorem FirstEnd.upgrade_eq {ending : Ending} (hstart : start ≤ target)
    (h : table.FirstEnd typeName target start input k v x ending) :
    table.upgrade input typeName start target = ending.result typeName target v x k := by
  obtain ⟨hle, hfollow⟩ := h.chain.follow_eq hstart h.first
  rw [upgrade, hfollow, follow_of_endsBy hle h.ends]

/-- From every place of the chain within the target, it comes to an end. The rank of the version
goes up with every upgrader and stays below that of the target. -/
theorem exists_firstEnd_of_chainAt (hstart : start ≤ target) {n : Nat}
    (hn : target.rank - v.rank ≤ n) (h : table.ChainAt typeName start input k v x)
    (hgoes : ∀ j w z ending, j < k → table.ChainAt typeName start input j w z →
      ¬ table.EndsBy typeName target w z ending) :
    ∃ k v x ending, table.FirstEnd typeName target start input k v x ending := by
  -- The bound is on the ranks that are left up to the target.
  induction n generalizing k v x with
  | zero =>
      have hle := Version.le_iff_rank_le.1 (h.follow_eq hstart hgoes).1
      have heq : v = target := Version.eq_of_rank_eq (by omega)
      exact ⟨k, v, x, .complete, h, .complete heq, hgoes⟩
  | succ n ih =>
      by_cases hends : ∃ ending, table.EndsBy typeName target v x ending
      · obtain ⟨ending, hends⟩ := hends
        exact ⟨k, v, x, ending, h, hends, hgoes⟩
      · have hgo : ∀ ending, ¬ table.EndsBy typeName target v x ending :=
          fun ending he => hends ⟨ending, he⟩
        obtain ⟨hne, u, y, hget, hwithin, htransform⟩ := exists_next hgo
        have hup := Version.lt_iff_rank_lt.1 (get?_eq_some hget).2.2.2
        have hle := Version.le_iff_rank_le.1 hwithin
        refine ih (by omega) (h.next hget htransform) ?_
        intro j w z ending hj hchain
        -- The only new place to look at is the one that was just left.
        rcases Nat.lt_succ_iff_lt_or_eq.1 hj with hj | rfl
        · exact hgoes j w z ending hj hchain
        · obtain ⟨rfl, rfl⟩ := hchain.unique h
          exact hgo ending

/-- Below or at the target, every chain comes to an end. -/
theorem exists_firstEnd (table : UpgraderTable α) (typeName : String) (input : α)
    (hstart : start ≤ target) :
    ∃ k v x ending, table.FirstEnd typeName target start input k v x ending :=
  exists_firstEnd_of_chainAt hstart (Nat.le_refl _) .start fun j _ _ _ hj =>
    absurd hj (Nat.not_lt_zero j)

/-! ## Transforms that run -/

/-- The transforms that a migration runs: those before the end of the chain, and the one that
fails. -/
def Runs (table : UpgraderTable α) (typeName : String) (start : Version) (input : α) (k : Nat)
    (ending : Ending) (w : Version) (z : α) : Prop :=
  ∃ j, table.ChainAt typeName start input j w z ∧
    (j < k ∨ j = k ∧ ∃ reached reason, ending = .failed reached reason)

/-- Two tables that lead from the same versions of a type to the same versions. -/
def SameLinks (table other : UpgraderTable α) (typeName : String) : Prop :=
  ∀ v, (other.get? typeName v).map Upgrader.target = (table.get? typeName v).map Upgrader.target

theorem SameLinks.exists_of_some {other : UpgraderTable α} (h : SameLinks table other typeName)
    {u : Upgrader α} (hget : table.get? typeName v = some u) :
    ∃ u', other.get? typeName v = some u' ∧ u'.target = u.target := by
  have hlink := h v
  rw [hget, Option.map_some, Option.map_eq_some_iff] at hlink
  exact hlink

theorem SameLinks.none_of_none {other : UpgraderTable α} (h : SameLinks table other typeName)
    (hget : table.get? typeName v = none) : other.get? typeName v = none := by
  have hlink := h v
  rw [hget, Option.map_none, Option.map_eq_none_iff] at hlink
  exact hlink

theorem SameLinks.symm {other : UpgraderTable α} (h : SameLinks table other typeName) :
    SameLinks other table typeName :=
  fun v => (h v).symm

/-- The transforms that another table has for a version give the same result on a value. -/
def SameTransform (table other : UpgraderTable α) (typeName : String) (v : Version) (x : α) :
    Prop :=
  ∀ u u', table.get? typeName v = some u → other.get? typeName v = some u' →
    u'.transform x = u.transform x

/-- A chain passes through every smaller number of steps. -/
theorem ChainAt.exists_of_le (h : table.ChainAt typeName start input k v x) {j : Nat} (hj : j ≤ k) :
    ∃ w z, table.ChainAt typeName start input j w z := by
  induction h with
  | start =>
      obtain rfl := Nat.le_zero.1 hj
      exact ⟨start, input, .start⟩
  | next hprev hget htransform ih =>
      rcases Nat.lt_or_eq_of_le hj with hj | rfl
      · exact ih (Nat.le_of_lt_succ hj)
      · exact ⟨_, _, hprev.next hget htransform⟩

/-- A chain is also one of another table with the same links and the same transforms on the way. -/
theorem ChainAt.congr {other : UpgraderTable α} (hlinks : SameLinks table other typeName)
    (h : table.ChainAt typeName start input k v x)
    (hsame : ∀ j w z, j < k → table.ChainAt typeName start input j w z →
      SameTransform table other typeName w z) :
    other.ChainAt typeName start input k v x := by
  induction h with
  | start => exact .start
  | @next k v x y u hprev hget htransform ih =>
      obtain ⟨u', hget', htarget⟩ := hlinks.exists_of_some hget
      have heq := hsame k v x (Nat.lt_succ_self k) hprev u u' hget hget'
      rw [← htarget]
      exact (ih fun j w z hj => hsame j w z (Nat.lt_succ_of_lt hj)).next hget'
        (heq.trans htransform)

/-- A chain ends in the same way in another table with the same links; a failure needs the failing
transform to be the same. -/
theorem EndsBy.congr {other : UpgraderTable α} {ending : Ending}
    (hlinks : SameLinks table other typeName) (h : table.EndsBy typeName target v x ending)
    (hsame : (∃ reached reason, ending = .failed reached reason) →
      SameTransform table other typeName v x) :
    other.EndsBy typeName target v x ending := by
  cases h with
  | complete heq => exact .complete heq
  | stalled hne hget => exact .stalled hne (hlinks.none_of_none hget)
  | overshoot hne hget hbeyond =>
      obtain ⟨u', hget', htarget⟩ := hlinks.exists_of_some hget
      rw [← htarget] at hbeyond ⊢
      exact .overshoot hne hget' hbeyond
  | failed hne hget hwithin htransform =>
      obtain ⟨u', hget', htarget⟩ := hlinks.exists_of_some hget
      have heq := hsame ⟨_, _, rfl⟩ _ u' hget hget'
      rw [← htarget] at hwithin ⊢
      exact .failed hne hget' hwithin (heq.trans htransform)

/-- A table that differs in other transforms only has the same first end. -/
theorem FirstEnd.congr {other : UpgraderTable α} {ending : Ending}
    (h : table.FirstEnd typeName target start input k v x ending)
    (hlinks : SameLinks table other typeName)
    (hsame : ∀ w z, Runs table typeName start input k ending w z →
      SameTransform table other typeName w z) :
    other.FirstEnd typeName target start input k v x ending := by
  have hbefore : ∀ j w z, j < k → table.ChainAt typeName start input j w z →
      SameTransform table other typeName w z :=
    fun j w z hj hchain => hsame w z ⟨j, hchain, Or.inl hj⟩
  refine ⟨h.chain.congr hlinks hbefore, ?_, ?_⟩
  · exact h.ends.congr hlinks fun hfailed => hsame v x ⟨k, h.chain, Or.inr ⟨rfl, hfailed⟩⟩
  · intro j w z e hj hchain hends
    -- An earlier end under the other table would be one here, as both chains are at the same place.
    obtain ⟨w', z', hchain'⟩ := h.chain.exists_of_le (Nat.le_of_lt hj)
    have hother : other.ChainAt typeName start input j w' z' :=
      hchain'.congr hlinks fun i w z hi => hbefore i w z (Nat.lt_trans hi hj)
    obtain ⟨rfl, rfl⟩ := hchain.unique hother
    apply h.first j w z e hj hchain'
    refine hends.congr hlinks.symm fun _ u u' hget hget' => ?_
    exact (hbefore j w z hj hchain' u' u hget' hget).symm

end Follow

/-- Data at the target or beyond is complete as it is. Otherwise the chain has a first end; the
migration returns what belongs to it, after as many steps as the chain has before, a stalled one
below the target. Its phase is a final one, and no transform but those that `Runs` names has a part
in it. -/
theorem upgrade_follows_chain (table : UpgraderTable α) (input : α) (typeName : String)
    (current target : Version) :
    (target ≤ current ∧ table.upgrade input typeName current target =
      .ok ⟨input, .complete, current, target, 0, typeName⟩) ∨
    (current < target ∧ ∃ k v x ending,
      table.FirstEnd typeName target current input k v x ending ∧
      table.upgrade input typeName current target = ending.result typeName target v x k ∧
      (ending = .stalled → v < target) ∧
      (∀ outcome, table.upgrade input typeName current target = .ok outcome →
        outcome.phase.isTerminal = true) ∧
      ∀ other, SameLinks table other typeName →
        (∀ w z, Runs table typeName current input k ending w z →
          SameTransform table other typeName w z) →
        other.upgrade input typeName current target =
          table.upgrade input typeName current target) := by
  rcases Version.lt_or_le current target with hlt | hle
  · right
    have hstart := Version.le_of_lt hlt
    obtain ⟨k, v, x, ending, hfirst⟩ := exists_firstEnd table typeName input hstart
    have hupgrade := hfirst.upgrade_eq hstart
    refine ⟨hlt, k, v, x, ending, hfirst, hupgrade, ?_, ?_, ?_⟩
    · rintro rfl
      obtain ⟨hwithin, -⟩ := hfirst.chain.follow_eq hstart hfirst.first
      cases hfirst.ends with
      | stalled hne => exact Version.lt_of_le_of_ne hwithin hne
    · intro outcome houtcome
      rw [hupgrade] at houtcome
      cases ending with
      | complete | stalled =>
          cases houtcome
          rfl
      | overshoot | failed => cases houtcome
    · intro other hlinks hsame
      rw [hupgrade]
      exact (hfirst.congr hlinks hsame).upgrade_eq hstart
  · left
    refine ⟨hle, ?_⟩
    rw [upgrade, follow, if_neg (Version.not_lt_iff_le.2 hle)]

end UpgraderTable

end ObjectGraph
