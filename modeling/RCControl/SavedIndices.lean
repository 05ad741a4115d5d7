import RCControl.Enumeration

/-! `service_nb` and `charac_nb` at the head of the service loop, over every table of
services: which characteristic the pair denotes, if it denotes one. -/
namespace RCControl
open Resumption

/-- The connected peripheral `p` offers `table`. -/
structure Offers (library : Library) (p : Handle) (table : List Service) : Prop where
  count : ∀ t, library t (.peripheralServicesCount p) = table.length
  get : ∀ t i, library t (.peripheralServicesGet p i) = table[i]?

/-- `charac_nb`, once set, is the place of a characteristic with `CHARACTERISTIC_UUID`
in the service with `SERVICE_UUID` whose place is `service_nb`. -/
def IndicesDenote (table : List Service) (w : BleWorld) : Prop :=
  w.characNb ≠ -1 → ∃ (i j : ℕ) (service : Service) (c : Characteristic),
    w.serviceNb = i ∧ table[i]? = some service ∧ serviceUuid = service.uuid ∧
    w.characNb = j ∧ service.characteristics[j]? = some c ∧ characteristicUuid = c.uuid

/-- The world in which the enumeration of `p`, started in `w`, is at the head of its
service loop after `i` passes; `none` if it does not come there. -/
def atLoopHead (library : Library) (p : Handle) (w : BleWorld) (i : ℕ) : Option BleWorld :=
  let servicesCount := w.ask library (.peripheralServicesCount p)
  let start := (w.called library .bleSender (.peripheralServicesCount p)).printed
    (.connected servicesCount)
  (Prog.atHead (perform library .bleSender) servicesCount (fun i _ => serviceBody p i) () start
    i).map Prod.snd

/-- No service offers `CHARACTERISTIC_UUID` before the first target of the table. -/
def TargetFirst (table : List Service) : Prop :=
  ∀ i service, table[i]? = some service → service.OffersCharacteristic →
    ∃ target ∈ table.take (i + 1), target.targets ≠ []

section Heads
variable {library : Library} {p : Handle} {table : List Service} {w u v : BleWorld} {i : ℕ}

theorem atLoopHead_succ_iff : atLoopHead library p w (i + 1) = some v ↔
    ∃ u, atLoopHead library p w i = some u ∧ i < w.ask library (.peripheralServicesCount p) ∧
      (serviceBody p i).run (perform library .bleSender) u = (.value (), v) := by
  simp only [atLoopHead, Option.map_eq_some_iff, Prod.exists, exists_eq_right,
    Prog.atHead_succ_iff]
  constructor
  · rintro ⟨⟨⟩, ⟨⟩, u, hu, hi, hpass⟩
    exact ⟨u, ⟨(), hu⟩, hi, hpass⟩
  · rintro ⟨u, ⟨⟨⟩, hu⟩, hi, hpass⟩
    exact ⟨(), (), u, hu, hi, hpass⟩

theorem atLoopHead_run (hu : atLoopHead library p w i = some u) :
    let servicesCount := w.ask library (.peripheralServicesCount p)
    (enumerateServices p).run (perform library .bleSender) w =
      (Prog.forBelow (pure servicesCount) (fun i _ => serviceBody p i) (servicesCount + 1 - i) i
        ()).run (perform library .bleSender) u := by
  obtain ⟨⟨⟨⟩, t⟩, hhead, rfl⟩ := Option.map_eq_some_iff.mp hu
  exact (Prog.atHead_run hhead (Nat.lt_succ_self _)).2

/-- What is known at the head of the loop: which services have been got past, and
where the two indices come from. -/
structure HeadSpec (table : List Service) (i : ℕ) (u : BleWorld) : Prop where
  le : i ≤ table.length
  passed : ∀ service ∈ table.take i, service.targets = []
  serviceNb : ∀ k : ℕ, u.serviceNb = k → k < i
  characNb : u.characNb ≠ -1 ↔ ∃ service ∈ table.take i, service.OffersCharacteristic

theorem HeadSpec.pass (h : HeadSpec table i u) (hi : i < table.length)
    (hnone : table[i].targets = []) (hpassed : Passed table[i] i u v) :
    HeadSpec table (i + 1) v where
  le := hi
  passed := (forall_mem_take_succ hi).mpr ⟨h.passed, hnone⟩
  serviceNb := by
    intro k hk
    rw [hpassed.serviceNb] at hk
    -- `service_nb` is this service, or one of those before it
    split_ifs at hk with hname
    · omega
    · exact Nat.lt_succ_of_lt (h.serviceNb k hk)
  characNb := by
    -- `charac_nb` is set here, or keeps what it was
    by_cases hoffers : table[i].OffersCharacteristic
    · obtain ⟨j, hj⟩ := hpassed.characNb.offered hoffers
      refine iff_of_true (by omega) ⟨table[i], ?_, hoffers⟩
      exact (mem_take_succ_iff hi).mpr (Or.inr rfl)
    · have hsame : v.characNb = u.characNb := by
        apply hpassed.characNb.unchanged
        intro c hc huuid
        exact hoffers ⟨c, hc, huuid⟩
      rw [hsame, h.characNb]
      constructor
      · intro hpost
        obtain ⟨service, hmem, hservice⟩ := hpost
        exact ⟨service, (mem_take_succ_iff hi).mpr (Or.inl hmem), hservice⟩
      · intro hpost
        obtain ⟨service, hmem, hservice⟩ := hpost
        obtain hmem | rfl := (mem_take_succ_iff hi).mp hmem
        · exact ⟨service, hmem, hservice⟩
        · exact absurd hservice hoffers

variable (hoffers : Offers library p table)
include hoffers

theorem Offers.ask_count : w.ask library (.peripheralServicesCount p) = table.length := by
  simp only [BleWorld.ask, LibCall.answer, hoffers.count]

/-- The heads of the loop in order, from a world with both indices unset. -/
theorem Offers.headSpec (hserviceNb : w.serviceNb = -1) (hcharacNb : w.characNb = -1)
    (hu : atLoopHead library p w i = some u) : HeadSpec table i u := by
  -- head by head, a pass that is completed adding its service
  induction i generalizing u with
  | zero =>
    obtain rfl := Option.some.inj hu
    refine ⟨Nat.zero_le _, by simp, ?_, ?_⟩
    · intro k hk
      change w.serviceNb = k at hk
      omega
    · refine iff_of_false (fun hne => hne hcharacNb) (by simp)
  | succ i ih =>
    obtain ⟨t, ht, hi, hpass⟩ := atLoopHead_succ_iff.mp hu
    rw [hoffers.ask_count] at hi
    have hget : library t.log.length (.peripheralServicesGet p i) = some table[i] := by
      rw [hoffers.get, List.getElem?_eq_getElem hi]
    by_cases hnone : table[i].targets = []
    · obtain ⟨-, hpassed⟩ := serviceBody_passes hget hnone
      rw [hpass] at hpassed
      exact (ih ht).pass hi hnone hpassed
    · -- at a target the pass is not completed
      have htarget : ∀ service, library t.log.length (.peripheralServicesGet p i) = some service →
          service.targets ≠ [] := by
        intro service hservice
        rw [hget] at hservice
        exact Option.some.inj hservice ▸ hnone
      have hreturns := serviceBody_returns htarget
      unfold Prog.Wp at hreturns
      rw [hpass] at hreturns
      cases hreturns.1

theorem Offers.atLoopHead_reached (hi : i ≤ table.length)
    (hpassed : ∀ service ∈ table.take i, service.targets = []) :
    ∃ u, atLoopHead library p w i = some u := by
  -- without a target behind it each head leads to the next
  induction i with
  | zero => exact ⟨_, rfl⟩
  | succ i ih =>
    obtain ⟨hbefore, hnone⟩ := (forall_mem_take_succ hi).mp hpassed
    obtain ⟨u, hu⟩ := ih (Nat.le_of_succ_le hi) hbefore
    have hget : library u.log.length (.peripheralServicesGet p i) = some table[i] := by
      rw [hoffers.get, List.getElem?_eq_getElem hi]
    have hpasses := serviceBody_passes hget hnone
    unfold Prog.Wp at hpasses
    generalize hrun : (serviceBody p i).run (perform library .bleSender) u = r at hpasses
    obtain ⟨o, v⟩ := r
    obtain ⟨ho, -⟩ := hpasses
    dsimp only at ho
    rw [ho] at hrun
    exact ⟨v, atLoopHead_succ_iff.mpr ⟨u, hu, by rw [hoffers.ask_count]; exact hi, hrun⟩⟩

end Heads

/-- At a head of the loop the indices denote one characteristic exactly when none has
been offered so far. -/
theorem HeadSpec.denote_iff {table : List Service} {i : ℕ} {u : BleWorld}
    (h : HeadSpec table i u) :
    IndicesDenote table u ↔ ∀ service ∈ table.take i, ¬service.OffersCharacteristic := by
  constructor
  · intro hdenote service hmem hoffers
    obtain ⟨k, j, target, c, hk, htarget, hname, -, hc, huuid⟩ :=
      hdenote (h.characNb.mpr ⟨service, hmem, hoffers⟩)
    -- the service it denotes would be one that the loop does not get past
    have htaken : target ∈ table.take i := by
      apply List.mem_of_getElem? (i := k)
      rw [List.getElem?_take_of_lt (h.serviceNb k hk)]
      exact htarget
    have hnone := h.passed target htaken
    exact target.targets_eq_nil_iff.mp hnone ⟨hname, c, List.mem_of_getElem? hc, huuid⟩
  · intro hnone hset
    obtain ⟨service, hmem, hoffers⟩ := h.characNb.mp hset
    exact absurd hoffers (hnone service hmem)

theorem bleSenderConnect_indices (library : Library) (es : List ScanEvent) :
    (bleSenderConnect library es).2.serviceNb = -1 ∧
      (bleSenderConnect library es).2.characNb = -1 :=
  ⟨bleSenderConnect_global library es .serviceNb (by decide),
    bleSenderConnect_global library es .characNb (by decide)⟩

/-- After any scan, and whatever the services of the peripheral that was connected, the
indices denote one characteristic of the one selected service at every head of the
service loop exactly when no service offers the characteristic before the first target. -/
theorem indices_denote_iff (library : Library) (es : List ScanEvent) (p : Handle) (w : BleWorld)
    (table : List Service) (hconnect : bleSenderConnect library es = (.value p, w))
    (hoffers : Offers library p table) :
    (∀ i u, atLoopHead library p w i = some u → IndicesDenote table u) ↔ TargetFirst table := by
  obtain ⟨hserviceNb, hcharacNb⟩ := bleSenderConnect_indices library es
  rw [hconnect] at hserviceNb hcharacNb
  constructor
  · intro hdenote i service hservice hoffered
    by_contra hmissing
    have hnone : ∀ target ∈ table.take (i + 1), target.targets = [] := by
      intro target hmem
      by_contra hsome
      exact hmissing ⟨target, hmem, hsome⟩
    obtain ⟨hi, rfl⟩ := List.getElem?_eq_some_iff.mp hservice
    -- then the loop gets past the service and comes to its next head
    obtain ⟨u, hu⟩ := hoffers.atLoopHead_reached (w := w) hi hnone
    have hspec := hoffers.headSpec hserviceNb hcharacNb hu
    exact hspec.denote_iff.mp (hdenote _ u hu) table[i]
      ((mem_take_succ_iff hi).mpr (Or.inr rfl)) hoffered
  · intro hfirst i u hu
    have hspec := hoffers.headSpec hserviceNb hcharacNb hu
    rw [hspec.denote_iff]
    intro service hmem hoffered
    -- a service that was passed and offers it would have a target before it, also passed
    obtain ⟨k, hget⟩ := List.mem_iff_getElem?.mp hmem
    obtain ⟨hk, hservice⟩ : k < i ∧ table[k]? = some service := by
      rw [List.getElem?_take] at hget
      split_ifs at hget with hk
      exact ⟨hk, hget⟩
    obtain ⟨target, htarget, hsome⟩ := hfirst k service hservice hoffered
    exact hsome (hspec.passed target ((List.take_sublist_take_left hk).subset htarget))

/-- On the board itself the first service is the target. -/
theorem indices_denote_on_esp32 : ∃ w, bleSenderConnect esp32Room.library [.found 11] =
      (.value 11, w) ∧
    ∀ i u, atLoopHead esp32Room.library 11 w i = some u → IndicesDenote [esp32Service] u := by
  have hvalue : (bleSenderConnect esp32Room.library [.found 11]).1 = .value 11 := by decide
  have hconnect : bleSenderConnect esp32Room.library [.found 11] =
      (.value 11, (bleSenderConnect esp32Room.library [.found 11]).2) := Prod.ext hvalue rfl
  refine ⟨_, hconnect, ?_⟩
  apply (indices_denote_iff esp32Room.library [.found 11] 11 _ [esp32Service] hconnect
    ⟨fun _ => rfl, fun _ _ => rfl⟩).mpr
  intro i service hservice _
  obtain ⟨hi, rfl⟩ := List.getElem?_eq_some_iff.mp hservice
  -- there is only one service
  obtain rfl : i = 0 := Nat.lt_one_iff.mp hi
  exact ⟨esp32Service, List.mem_singleton_self _, by decide⟩

/-- A vendor service that happens to use the same 16-bit characteristic. -/
def vendorService : Service :=
  { esp32Service with uuid := "0000fff0-0000-1000-8000-00805f9b34fb" }

/-- A board that lists it before the service of the remote control. -/
def vendorRoom : Surroundings :=
  { esp32Room with services := fun _ => [vendorService, esp32Service] }

/-- After one pass `charac_nb` is 0 and `service_nb` still -1. -/
theorem indices_denote_nothing_behind_vendor : ∃ w, bleSenderConnect vendorRoom.library
      [.found 11] = (.value 11, w) ∧ Offers vendorRoom.library 11 [vendorService, esp32Service] ∧
    ¬∀ i u, atLoopHead vendorRoom.library 11 w i = some u →
      IndicesDenote [vendorService, esp32Service] u := by
  have hvalue : (bleSenderConnect vendorRoom.library [.found 11]).1 = .value 11 := by decide
  refine ⟨(bleSenderConnect vendorRoom.library [.found 11]).2, Prod.ext hvalue rfl,
    ⟨fun _ => rfl, fun _ _ => rfl⟩, ?_⟩
  intro hdenote
  -- the head behind the vendor service
  have hhead : (atLoopHead vendorRoom.library 11 (bleSenderConnect vendorRoom.library
      [.found 11]).2 1).map (fun u => (u.serviceNb, u.characNb)) = some (-1, 0) := by
    decide +kernel
  obtain ⟨u, hu, hindices⟩ := Option.map_eq_some_iff.mp hhead
  obtain ⟨hserviceNb, hcharacNb⟩ := Prod.mk.inj hindices
  obtain ⟨i, -, -, -, hi, -⟩ := hdenote 1 u hu (by rw [hcharacNb]; decide)
  rw [hserviceNb] at hi
  omega

end RCControl
