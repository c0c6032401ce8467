import Mathlib.Data.List.Induction
import Mathlib.Data.List.Perm.Basic
import ObjectGraph.Proofs.Entries.Updates
import ObjectGraph.Proofs.Migration.Chain

/-!
# How a table of upgraders is filled

A table is filled by offering it one upgrader after the other (`UpgraderTable.offerAll`). It takes
an upgrader that leads to a newer version from a place where none starts yet, and stays as it is
otherwise. So what stands at a place is the first upgrader offered for that very place that leads to
a newer version (`get?_offerAll`), and that says all there is to say about the history: the order
matters only where two offers compete for one place (`AllAccepted.get?_eq_some_iff`).

A table that takes one more upgrader keeps what it has, so a migration can go another way only where
it found nothing before (`follow_of_register`). `UpgraderTable.offerAll_integrity` has all of this
together.

The place of an upgrader is the pair of its type and version. The key that is displayed joins the
two texts and does not tell every two places apart (`offerAll_sampleOffers`).
-/

namespace ObjectGraph

namespace Upgrader

variable {α : Type}

/-- Where a step begins: the type and the version that it reads. -/
def start (u : Upgrader α) : String × Version :=
  (u.typeName, u.source)

/-- The step begins at this version of this type. -/
def StartsAt (u : Upgrader α) (typeName : String) (version : Version) : Prop :=
  u.typeName = typeName ∧ u.source = version

instance (u : Upgrader α) (typeName : String) (version : Version) :
    Decidable (u.StartsAt typeName version) :=
  inferInstanceAs (Decidable (_ ∧ _))

theorem startsAt_iff_start_eq {u : Upgrader α} {typeName : String} {version : Version} :
    u.StartsAt typeName version ↔ u.start = (typeName, version) := by
  rw [StartsAt, start, Prod.mk.injEq]

theorem eq_of_nodup_start {upgraders : List (Upgrader α)} (h : (upgraders.map start).Nodup)
    {u w : Upgrader α} (hu : u ∈ upgraders) (hw : w ∈ upgraders) {typeName : String}
    {version : Version} (hstarts : u.StartsAt typeName version)
    (hstarts' : w.StartsAt typeName version) : u = w :=
  List.inj_on_of_nodup_map h hu hw
    ((startsAt_iff_start_eq.1 hstarts).trans (startsAt_iff_start_eq.1 hstarts').symm)

theorem startsAt_self (u : Upgrader α) : u.StartsAt u.typeName u.source :=
  ⟨rfl, rfl⟩

end Upgrader

namespace UpgraderTable

variable {α : Type}

/-- The table takes the upgrader. -/
def Accepts (table : UpgraderTable α) (u : Upgrader α) : Prop :=
  ∃ wider, table.register u = .ok wider

/-- The table after an upgrader was offered to it. One that is refused leaves it as it is. -/
def offer (table : UpgraderTable α) (u : Upgrader α) : UpgraderTable α :=
  (table.register u).toOption.getD table

/-- The table that is filled by these offers, from the first to the last. -/
def offerAll (offers : List (Upgrader α)) : UpgraderTable α :=
  offers.foldl offer {}

/-- Every offer is accepted when its turn comes. -/
def AllAccepted (offers : List (Upgrader α)) : Prop :=
  ∀ before u after, offers = before ++ u :: after → (offerAll before).Accepts u

/-- The first offer for a place that was accepted. -/
inductive FirstAccepted (offers : List (Upgrader α)) (typeName : String) (version : Version)
    (u : Upgrader α) : Prop
  | mk {before after : List (Upgrader α)} :
      offers = before ++ u :: after → u.StartsAt typeName version → (offerAll before).Accepts u →
      (∀ earlier w later, before = earlier ++ w :: later → w.StartsAt typeName version →
        ¬ (offerAll earlier).Accepts w) →
      FirstAccepted offers typeName version u

/-! ## One offer -/

section Offer

variable {table wider : UpgraderTable α} {u : Upgrader α} {typeName : String} {version : Version}

/-- The upgrader of a place is the first stored one that starts there. -/
theorem get?_eq_find? (table : UpgraderTable α) (typeName : String) (version : Version) :
    table.get? typeName version = table.entries.find? fun u => u.StartsAt typeName version := by
  have htest : (fun u : Upgrader α => u.typeName == typeName && u.source == version) =
      fun u => decide (u.StartsAt typeName version) := by
    funext u
    rw [Bool.eq_iff_iff, Bool.and_eq_true, beq_iff_eq, beq_iff_eq, decide_eq_true_eq,
      Upgrader.StartsAt]
  rw [get?, htest]

/-- What an offer comes to: the upgrader goes behind the others, or one of two things is wrong with
it. -/
theorem register_cases (table : UpgraderTable α) (u : Upgrader α) :
    (u.source < u.target ∧ table.get? u.typeName u.source = none ∧
      ∃ wider, table.register u = .ok wider ∧ wider.entries = table.entries ++ [u]) ∨
    (u.target ≤ u.source ∧
      table.register u = .error (.invalidUpgrader u.typeName u.source u.target .notNewer)) ∨
    (u.source < u.target ∧ (∃ stored, table.get? u.typeName u.source = some stored) ∧
      table.register u = .error (.invalidUpgrader u.typeName u.source u.target .startTaken)) := by
  rw [register]
  by_cases hnewer : u.source < u.target
  · rw [dif_pos hnewer]
    cases hstored : table.get? u.typeName u.source with
    | none => exact .inl ⟨hnewer, rfl, _, if_neg Bool.false_ne_true, rfl⟩
    | some stored => exact .inr (.inr ⟨hnewer, ⟨stored, rfl⟩, if_pos rfl⟩)
  · exact .inr (.inl ⟨Version.not_lt_iff_le.1 hnewer, by simp [hnewer]⟩)

/-- An upgrader is accepted if it leads up and its place is free. -/
theorem accepts_iff :
    table.Accepts u ↔ u.source < u.target ∧ table.get? u.typeName u.source = none := by
  rw [Accepts]
  rcases register_cases table u with ⟨hnewer, hfree, wider, hregister, -⟩ | ⟨hold, hregister⟩ |
    ⟨-, ⟨stored, hstored⟩, hregister⟩
  · exact iff_of_true ⟨wider, hregister⟩ ⟨hnewer, hfree⟩
  · refine iff_of_false ?_ fun h => Version.not_lt_iff_le.2 hold h.1
    simp [hregister]
  · refine iff_of_false ?_ fun h => ?_
    · simp [hregister]
    · rw [hstored] at h
      cases h.2

/-- An upgrader is refused if it does not lead up or its place is taken. -/
theorem exists_error_iff :
    (∃ e, table.register u = .error e) ↔
      u.target ≤ u.source ∨ ∃ stored, table.get? u.typeName u.source = some stored := by
  rcases register_cases table u with ⟨hnewer, hfree, wider, hregister, -⟩ | ⟨hold, hregister⟩ |
    ⟨-, hstored, hregister⟩
  · refine iff_of_false ?_ ?_
    · simp [hregister]
    · rintro (hold | ⟨stored, hstored⟩)
      · exact Version.not_lt_iff_le.2 hold hnewer
      · rw [hfree] at hstored
        cases hstored
  · exact iff_of_true ⟨_, hregister⟩ (.inl hold)
  · exact iff_of_true ⟨_, hregister⟩ (.inr hstored)

theorem offer_of_register (h : table.register u = .ok wider) : table.offer u = wider := by
  rw [offer, h]
  rfl

theorem offer_of_error {e : MigrationError} (h : table.register u = .error e) :
    table.offer u = table := by
  rw [offer, h]
  rfl

/-- An offer changes what stands at the place of its upgrader, if nothing did before. -/
theorem get?_offer :
    (table.offer u).get? typeName version = (table.get? typeName version).or
      (if u.StartsAt typeName version ∧ u.source < u.target then some u else none) := by
  rcases register_cases table u with ⟨hnewer, -, wider, hregister, hentries⟩ | ⟨hold, hregister⟩ |
    ⟨-, ⟨stored, hstored⟩, hregister⟩
  · rw [offer_of_register hregister, get?_eq_find?, get?_eq_find?, hentries, List.find?_append]
    by_cases hstarts : u.StartsAt typeName version <;> simp [hstarts, hnewer]
  · rw [offer_of_error hregister, if_neg fun h => Version.not_lt_iff_le.2 hold h.2, Option.or_none]
  · rw [offer_of_error hregister]
    by_cases hstarts : u.StartsAt typeName version
    · obtain ⟨rfl, rfl⟩ := hstarts
      rw [hstored, Option.some_or]
    · rw [if_neg fun h => hstarts h.1, Option.or_none]

end Offer

/-! ## A history of offers -/

section Offers

variable {offers other : List (Upgrader α)} {u : Upgrader α} {typeName : String} {version : Version}

theorem offerAll_append_singleton (offers : List (Upgrader α)) (u : Upgrader α) :
    offerAll (offers ++ [u]) = (offerAll offers).offer u := by
  rw [offerAll, List.foldl_append]
  rfl

/-- At a place stands the first upgrader offered for it that leads to a newer version. -/
theorem get?_offerAll (offers : List (Upgrader α)) (typeName : String) (version : Version) :
    (offerAll offers).get? typeName version =
      offers.find? fun u => u.StartsAt typeName version ∧ u.source < u.target := by
  induction offers using List.reverseRecOn with
  | nil => rfl
  | append_singleton before u ih =>
      rw [offerAll_append_singleton, get?_offer, ih, List.find?_append, List.find?_singleton]
      simp only [decide_eq_true_eq]

theorem offerAll_get?_eq_none_iff :
    (offerAll offers).get? typeName version = none ↔
      ∀ u ∈ offers, u.StartsAt typeName version → ¬ u.source < u.target := by
  rw [get?_offerAll, List.find?_eq_none]
  simp

/-- The stored upgrader of a place is the first one that was accepted for it. -/
theorem get?_eq_some_iff_firstAccepted :
    (offerAll offers).get? typeName version = some u ↔ FirstAccepted offers typeName version u := by
  rw [get?_offerAll, List.find?_eq_some_iff_append]
  simp only [decide_eq_true_eq, Bool.not_eq_eq_eq_not, Bool.not_true,
    decide_eq_false_iff_not, not_and]
  constructor
  · -- What was offered for the place before leads to no newer version, so the place is still free.
    rintro ⟨⟨hstarts, hnewer⟩, before, after, rfl, hbefore⟩
    refine ⟨rfl, hstarts, accepts_iff.2 ⟨hnewer, ?_⟩, ?_⟩
    · obtain ⟨rfl, rfl⟩ := hstarts
      exact offerAll_get?_eq_none_iff.2 hbefore
    · rintro earlier w later rfl hw haccepts
      exact hbefore w (by simp) hw (accepts_iff.1 haccepts).1
  · -- An offer is accepted at a free place only, so it is the first one of its kind already.
    rintro ⟨rfl, hstarts, haccepts, -⟩
    obtain ⟨hnewer, hfree⟩ := accepts_iff.1 haccepts
    refine ⟨⟨hstarts, hnewer⟩, _, _, rfl, ?_⟩
    obtain ⟨rfl, rfl⟩ := hstarts
    exact offerAll_get?_eq_none_iff.1 hfree

/-- No two upgraders of the table have the same place. -/
theorem nodup_start_offerAll (offers : List (Upgrader α)) :
    ((offerAll offers).entries.map Upgrader.start).Nodup := by
  induction offers using List.reverseRecOn with
  | nil => exact List.nodup_nil
  | append_singleton before u ih =>
      rw [offerAll_append_singleton]
      rcases register_cases (offerAll before) u with ⟨-, hfree, wider, hregister, hentries⟩ |
        ⟨-, hregister⟩ | ⟨-, -, hregister⟩
      · rw [offer_of_register hregister, hentries, List.map_append, List.map_singleton]
        refine ih.append (List.nodup_singleton _) (List.disjoint_singleton.2 fun hmem => ?_)
        obtain ⟨stored, hstored, hstart⟩ := List.mem_map.1 hmem
        rw [get?_eq_find?, List.find?_eq_none] at hfree
        exact hfree stored hstored (decide_eq_true (Upgrader.startsAt_iff_start_eq.2 hstart))
      · rwa [offer_of_error hregister]
      · rwa [offer_of_error hregister]

/-- Everything in the table is found at its own place. -/
theorem get?_of_mem_offerAll (h : u ∈ (offerAll offers).entries) :
    (offerAll offers).get? u.typeName u.source = some u := by
  rw [get?_eq_find?, Entries.find?_eq_some_iff_of_unique]
  · exact ⟨h, decide_eq_true u.startsAt_self⟩
  · intro w hw z hz hstarts hstarts'
    exact Upgrader.eq_of_nodup_start (nodup_start_offerAll offers) hw hz (of_decide_eq_true hstarts)
      (of_decide_eq_true hstarts')

/-- All offers are accepted if all but the last are, and then the last one. -/
theorem allAccepted_append_singleton :
    AllAccepted (offers ++ [u]) ↔ AllAccepted offers ∧ (offerAll offers).Accepts u := by
  constructor
  · intro h
    refine ⟨?_, h offers u [] rfl⟩
    rintro before w after rfl
    exact h before w (after ++ [u]) (by simp)
  · rintro ⟨hall, hlast⟩ before w after hsplit
    -- The offer in question is the last one, or it stands among those before.
    rcases List.eq_nil_or_concat after with rfl | ⟨init, last, rfl⟩
    · obtain ⟨rfl, hw⟩ := List.append_inj' hsplit rfl
      cases hw
      exact hlast
    · have hinit : offers ++ [u] = (before ++ w :: init) ++ [last] := by simpa using hsplit
      exact hall before w init (List.append_inj' hinit rfl).1

/-- All offers are accepted if each leads to a newer version and no two begin at one place. The
order has no part in it. -/
theorem allAccepted_iff :
    AllAccepted offers ↔
      (∀ u ∈ offers, u.source < u.target) ∧ (offers.map Upgrader.start).Nodup := by
  induction offers using List.reverseRecOn with
  | nil => simp [AllAccepted]
  | append_singleton before u ih =>
      rw [allAccepted_append_singleton, ih, accepts_iff, offerAll_get?_eq_none_iff, List.map_append,
        List.map_singleton, List.nodup_append_comm, List.singleton_append, List.nodup_cons]
      -- All offers before lead to newer versions, so one of them holds the place of the last if any
      -- begins there.
      constructor
      · rintro ⟨⟨hnewer, hnodup⟩, hlast, hfree⟩
        refine ⟨?_, ?_, hnodup⟩
        · simpa [or_imp, forall_and] using ⟨hnewer, hlast⟩
        · rintro hmem
          obtain ⟨w, hw, hstart⟩ := List.mem_map.1 hmem
          exact hfree w hw (Upgrader.startsAt_iff_start_eq.2 hstart) (hnewer w hw)
      · rintro ⟨hnewer, hfree, hnodup⟩
        refine ⟨⟨fun w hw => hnewer w (List.mem_append_left _ hw), hnodup⟩, hnewer u (by simp), ?_⟩
        intro w hw hstarts
        exact absurd (List.mem_map.2 ⟨w, hw, Upgrader.startsAt_iff_start_eq.1 hstarts⟩) hfree

/-- Where all offers were accepted, the table has every one of them at its place. -/
theorem AllAccepted.get?_eq_some_iff (h : AllAccepted offers) :
    (offerAll offers).get? typeName version = some u ↔ u ∈ offers ∧
      u.StartsAt typeName version := by
  obtain ⟨hnewer, hnodup⟩ := allAccepted_iff.1 h
  rw [get?_offerAll, Entries.find?_eq_some_iff_of_unique]
  · rw [decide_eq_true_eq, and_congr_right_iff]
    intro hmem
    exact and_iff_left (hnewer u hmem)
  · intro w hw z hz hstarts hstarts'
    exact Upgrader.eq_of_nodup_start hnodup hw hz (of_decide_eq_true hstarts).1
      (of_decide_eq_true hstarts').1

theorem AllAccepted.perm (h : AllAccepted offers) (hperm : offers.Perm other) :
    AllAccepted other := by
  rw [allAccepted_iff] at h ⊢
  exact ⟨fun u hu => h.1 u (hperm.mem_iff.2 hu), (hperm.map _).nodup_iff.1 h.2⟩

end Offers

/-! ## Migrations in a wider table -/

section Wider

variable {table wider : UpgraderTable α} {u : Upgrader α} {typeName : String}
  {version target v : Version} {x : α} {k : Nat}

theorem get?_of_register (h : table.register u = .ok wider) :
    wider.get? typeName version = (table.get? typeName version).or
      (if u.StartsAt typeName version ∧ u.source < u.target then some u else none) := by
  rw [← offer_of_register h, get?_offer]

/-- One more upgrader changes a migration only where it had stalled, and only if it had stalled at
the place where the new upgrader begins. -/
theorem follow_of_register (h : table.register u = .ok wider) :
    (∃ o, table.follow typeName target v x k = .ok o ∧ o.phase = .stalled ∧
      u.StartsAt typeName o.version) ∨
      wider.follow typeName target v x k = table.follow typeName target v x k := by
  -- The induction is along the chain in the narrower table; every upgrader on it is still in its
  -- place.
  have hkept : ∀ {version stored}, table.get? typeName version = some stored →
      wider.get? typeName version = some stored := by
    intro version stored hstored
    rw [get?_of_register h, hstored, Option.some_or]
  fun_induction follow table typeName target v x k with
  | case1 v x k hlt hget =>
      by_cases hstarts : u.StartsAt typeName v
      · exact .inl ⟨_, rfl, rfl, hstarts⟩
      · have hnone : wider.get? typeName v = none := by
          rw [get?_of_register h, hget, if_neg fun hu => hstarts hu.1, Option.or_none]
        exact .inr (follow_of_none hlt hnone)
  | case2 v x k hlt next hget hbeyond =>
      right
      rw [follow_of_some hlt (hkept hget), if_pos hbeyond]
  | case3 v x k hlt next hget hwithin reason htransform =>
      right
      rw [follow_of_some hlt (hkept hget), if_neg hwithin, htransform]
  | case4 v x k hlt next hget hwithin y htransform ih =>
      rw [follow_of_next hlt (hkept hget) (Version.not_lt_iff_le.1 hwithin) htransform]
      exact ih
  | case5 v x k hge =>
      right
      rw [follow, if_neg hge]

end Wider

/-- After any offers to an empty table: whatever is in the table stands at its own place and leads
to a newer version. A further upgrader is refused exactly if it leads to no newer version or its
place is taken, and then nothing changes. What stands at a place is the first upgrader for that
place that was accepted. If all offers were accepted, they are accepted in every order, with the
same table in the end. And one more offer changes a migration only if the migration had stalled, at
the place where the new upgrader begins. -/
theorem offerAll_integrity (offers : List (Upgrader α)) :
    (∀ u ∈ (offerAll offers).entries, (offerAll offers).get? u.typeName u.source = some u) ∧
    (∀ typeName version u, (offerAll offers).get? typeName version = some u →
      u ∈ (offerAll offers).entries ∧ u.StartsAt typeName version ∧ version < u.target) ∧
    (∀ u, ((∃ e, (offerAll offers).register u = .error e) ↔
        u.target ≤ u.source ∨ ∃ stored, (offerAll offers).get? u.typeName u.source = some stored) ∧
      ∀ e, (offerAll offers).register u = .error e → ∀ typeName version,
        (offerAll (offers ++ [u])).get? typeName version =
          (offerAll offers).get? typeName version) ∧
    (∀ typeName version u, (offerAll offers).get? typeName version = some u ↔
      FirstAccepted offers typeName version u) ∧
    (AllAccepted offers → ∀ other, offers.Perm other → AllAccepted other ∧
      ∀ typeName version, (offerAll other).get? typeName version =
        (offerAll offers).get? typeName version) ∧
    ∀ u x typeName current target,
      (∃ o, (offerAll offers).upgrade x typeName current target = .ok o ∧ o.phase = .stalled ∧
        u.StartsAt typeName o.version) ∨
      (offerAll (offers ++ [u])).upgrade x typeName current target =
        (offerAll offers).upgrade x typeName current target := by
  refine ⟨fun u hu => get?_of_mem_offerAll hu, ?_, ?_, fun typeName version u =>
    get?_eq_some_iff_firstAccepted, ?_, ?_⟩
  · intro typeName version u hget
    obtain ⟨hmem, htype, hsource, hnewer⟩ := get?_eq_some hget
    exact ⟨hmem, ⟨htype, hsource⟩, hnewer⟩
  · intro u
    refine ⟨exists_error_iff, ?_⟩
    intro e he typeName version
    rw [offerAll_append_singleton, offer_of_error he]
  · intro hall other hperm
    have hother := hall.perm hperm
    refine ⟨hother, ?_⟩
    intro typeName version
    apply Option.ext
    intro u
    rw [hother.get?_eq_some_iff, hall.get?_eq_some_iff, hperm.mem_iff]
  · intro u x typeName current target
    rw [offerAll_append_singleton]
    rcases register_cases (offerAll offers) u with ⟨-, -, wider, hregister, -⟩ | ⟨-, hregister⟩ |
      ⟨-, -, hregister⟩
    · rw [offer_of_register hregister]
      exact follow_of_register hregister
    · exact .inr (by rw [offer_of_error hregister])
    · exact .inr (by rw [offer_of_error hregister])

/-- A step of one type and a step of another, whose displayed keys are the same text. -/
def sampleOffers : List (Upgrader Nat) :=
  [.infallible "Kit.T1" ⟨1, 0, 0⟩ ⟨2, 0, 0⟩ (· + 1),
    .infallible "Kit.T" ⟨11, 0, 0⟩ ⟨12, 0, 0⟩ (· * 10)]

/-- Both steps are accepted in either order and found at their own places, and no third one changes
a migration that gets to its target. -/
theorem offerAll_sampleOffers :
    Upgrader.displayKey "Kit.T1" ⟨1, 0, 0⟩ = Upgrader.displayKey "Kit.T" ⟨11, 0, 0⟩ ∧
      AllAccepted sampleOffers ∧ AllAccepted sampleOffers.reverse ∧
      ((offerAll sampleOffers.reverse).get? "Kit.T1" ⟨1, 0, 0⟩).map Upgrader.target =
        some ⟨2, 0, 0⟩ ∧
      ((offerAll sampleOffers.reverse).get? "Kit.T" ⟨11, 0, 0⟩).map Upgrader.target =
        some ⟨12, 0, 0⟩ ∧
      ∀ u, (offerAll (sampleOffers ++ [u])).upgrade 5 "Kit.T" ⟨11, 0, 0⟩ ⟨12, 0, 0⟩ =
        .ok ⟨50, .complete, ⟨12, 0, 0⟩, ⟨12, 0, 0⟩, 1, "Kit.T"⟩ := by
  have hall : AllAccepted sampleOffers := allAccepted_iff.2 (by decide)
  have hupgrade : (offerAll sampleOffers).upgrade 5 "Kit.T" ⟨11, 0, 0⟩ ⟨12, 0, 0⟩ =
      .ok ⟨50, .complete, ⟨12, 0, 0⟩, ⟨12, 0, 0⟩, 1, "Kit.T"⟩ := by cbv
  obtain ⟨-, -, -, -, horder, hwider⟩ := offerAll_integrity sampleOffers
  obtain ⟨hreversed, hsame⟩ := horder hall _ (List.reverse_perm _).symm
  refine ⟨by decide, hall, hreversed, ?_, ?_, ?_⟩
  · rw [hsame]
    rfl
  · rw [hsame]
    rfl
  · intro u
    rcases hwider u 5 "Kit.T" ⟨11, 0, 0⟩ ⟨12, 0, 0⟩ with ⟨o, ho, hstalled, -⟩ | hkept
    · rw [hupgrade] at ho
      cases ho
      cases hstalled
    · rw [hkept, hupgrade]

end UpgraderTable

end ObjectGraph
