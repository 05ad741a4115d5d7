import RCControl.PeripheralConnect

/-! What the user of a peripheral hears of its connections, whatever the two threads
interleave. -/
namespace RCControl
open StepSystem PeripheralLinux

variable {s t : PeripheralLinux}

/-- While `connect` makes its attempts the callback is not loaded, and no disconnection
is told. -/
structure Quiet (s : PeripheralLinux) : Prop where
  unloaded : attempting s.log = true → s.onDisconnected = false
  silent : ∀ n, s.log[n]? = some .disconnected → attempting (s.log.take n) = false

theorem Quiet.keep (h : Quiet s) (hlog : t.log = s.log)
    (hloaded : t.onDisconnected = s.onDisconnected) : Quiet t := by
  constructor
  · rw [hlog, hloaded]
    exact h.unloaded
  · rw [hlog]
    exact h.silent

theorem Quiet.snoc (h : Quiet s) {e : LinkEntry} (hlog : t.log = s.log ++ [e])
    (htold : e = .disconnected → attempting s.log = false)
    (hunloaded : attemptingStep (attempting s.log) e = true → t.onDisconnected = false) :
    Quiet t := by
  constructor
  · rw [hlog, attempting_snoc]
    exact hunloaded
  · intro n hn
    rw [hlog] at hn ⊢
    by_cases hlt : n < s.log.length
    · rw [List.getElem?_append_left hlt] at hn
      rw [List.take_append_of_le_length (by omega)]
      exact h.silent n hn
    · have hlen := (List.getElem?_eq_some_iff.mp hn).1
      rw [List.length_append, List.length_singleton] at hlen
      have hlast : n = s.log.length := by omega
      rw [hlast, List.getElem?_concat_length, Option.some.injEq] at hn
      rw [hlast, List.take_left]
      exact htold hn

theorem Quiet.propertyChanged (h : Quiet s) : Quiet s.propertyChanged := by
  rcases propertyChanged_cases s with heq | ⟨_, hloaded, heq⟩
  · rw [heq]
    exact h
  · have hopen : attempting s.log = false := by
      cases hatt : attempting s.log with
      | false => rfl
      | true => exact absurd (hloaded.symm.trans (h.unloaded hatt)) (by simp)
    rw [heq]
    exact h.snoc rfl (fun _ => hopen) (fun hatt => absurd (hopen.symm.trans hatt) (by simp))

theorem Quiet.effect (h : Quiet s) (ht : LinkEffect s t) : Quiet t := by
  cases ht with
  | turn resolved _ => exact h.keep rfl rfl
  | beganConnect => exact h.snoc rfl nofun (fun _ => rfl)
  | beganDisconnect _ => exact h.snoc rfl nofun h.unloaded
  | requested result _ => exact h.snoc rfl nofun h.unloaded
  | refreshed value _ => exact h.snoc rfl nofun h.unloaded
  | changed _ => exact h.propertyChanged.keep rfl rfl
  | armed _ => exact h.snoc rfl nofun nofun
  | notified _ => exact h.snoc rfl nofun h.unloaded
  | raised _ => exact h.snoc rfl nofun h.unloaded
  | resolved resolved => exact h.keep rfl rfl
  | signalled value resolved => exact h.snoc rfl nofun h.unloaded
  | busChanged => exact h.propertyChanged.keep rfl rfl

/-- The requests of a call are as many as the attempts it has begun, five at most. -/
structure Counted (s : PeripheralLinux) : Prop where
  bounded : ∀ call, requests call s.log ≤ attemptCount
  made : ∀ call k, s.pc.made = some (call, k) → requests call s.log = k
  bound : ∀ call i, s.pc = .requesting call i → i < attemptCount

theorem Counted.keep (h : Counted s) (hlog : ∀ call, requests call t.log = requests call s.log)
    (hmade : ∀ call k, t.pc.made = some (call, k) → s.pc.made = some (call, k))
    (hbound : ∀ call i, t.pc = .requesting call i → i < attemptCount) : Counted t := by
  constructor
  · intro call
    rw [hlog]
    exact h.bounded call
  · intro call k ht
    rw [hlog]
    exact h.made call k (hmade call k ht)
  · exact hbound

theorem requests_propertyChanged (call : LinkCall) (s : PeripheralLinux) :
    requests call s.propertyChanged.log = requests call s.log := by
  rcases propertyChanged_cases s with heq | ⟨_, _, heq⟩
  · rw [heq]
  · rw [heq]
    exact requests_snoc _ _ _

theorem made_checking (purpose : CheckPurpose) (pc pc' : CheckPc) :
    (LinkPc.checking purpose pc).made = (LinkPc.checking purpose pc').made := by
  cases purpose <;> rfl

theorem made_nextAttempt {call call' : LinkCall} {i k : ℕ}
    (h : (nextAttempt call i).made = some (call', k)) : call' = call ∧ k = i + 1 := by
  rw [nextAttempt] at h
  by_cases hlt : i + 1 < attemptCount
  · rw [if_pos hlt] at h
    cases h
    exact ⟨rfl, rfl⟩
  · rw [if_neg hlt] at h
    cases call <;> cases h

theorem made_afterReply {call call' : LinkCall} {i k : ℕ} {result : RequestResult}
    (h : (afterReply call i result).made = some (call', k)) : call' = call ∧ k = i + 1 := by
  cases result with
  | replied =>
    cases h
    exact ⟨rfl, rfl⟩
  | raised => cases call <;> cases h
  | sendFailed =>
    cases call with
    | connect => exact made_nextAttempt h
    | disconnect => cases h

theorem bound_afterReply {call call' : LinkCall} {i j : ℕ} {result : RequestResult}
    (h : afterReply call i result = .requesting call' j) : j < attemptCount := by
  cases result with
  | replied => cases h
  | raised => cases call <;> cases h
  | sendFailed =>
    cases call with
    | disconnect => cases h
    | connect =>
      rw [afterReply, nextAttempt] at h
      by_cases hlt : i + 1 < attemptCount
      · rw [if_pos hlt] at h
        cases h
        exact hlt
      · rw [if_neg hlt] at h
        cases h

theorem Counted.began (h : Counted s) {call : LinkCall} (hlog : t.log = s.log ++ [.began call])
    (hpc : t.pc = .requesting call 0) : Counted t := by
  have hself : requests call t.log = 0 := by
    rw [hlog, requests_snoc]
    exact if_pos rfl
  constructor
  · intro call'
    rw [hlog, requests_snoc]
    show (if call = call' then 0 else requests call' s.log) ≤ attemptCount
    by_cases hcall : call = call'
    · rw [if_pos hcall]
      exact Nat.zero_le _
    · rw [if_neg hcall]
      exact h.bounded call'
  · intro call' k hmade
    rw [hpc] at hmade
    cases hmade
    exact hself
  · intro call' i hreq
    rw [hpc] at hreq
    cases hreq
    decide

theorem Counted.requested (h : Counted s) {call : LinkCall} {i : ℕ} (result : RequestResult)
    (hpc : s.pc = .requesting call i) :
    Counted ((s.tell (.requested call)).goto (afterReply call i result)) := by
  have hbefore : requests call s.log = i := h.made call i (by rw [hpc]; rfl)
  have hlt := h.bound call i hpc
  have hself : requests call (s.log ++ [.requested call]) = i + 1 := by
    rw [requests_snoc, hbefore]
    exact if_pos rfl
  constructor
  · intro call'
    show requests call' (s.log ++ [.requested call]) ≤ attemptCount
    by_cases hcall : call = call'
    · rw [← hcall, hself]
      omega
    · rw [requests_snoc]
      show (if call = call' then requests call' s.log + 1 else requests call' s.log) ≤ _
      rw [if_neg hcall]
      exact h.bounded call'
  · intro call' k hmade
    obtain ⟨hcall, hk⟩ := made_afterReply hmade
    show requests call' (s.log ++ [.requested call]) = k
    rw [hcall, hself, hk]
  · intro call' j hreq
    exact bound_afterReply hreq

theorem Counted.effect (h : Counted s) (ht : LinkEffect s t) : Counted t := by
  cases ht with
  | turn resolved hfollows => exact h.keep (fun _ => rfl) hfollows.made hfollows.bound
  | beganConnect => exact h.began rfl rfl
  | beganDisconnect _ => exact h.began rfl rfl
  | requested result hpc => exact h.requested result hpc
  | refreshed value hpc =>
    refine h.keep (fun call => requests_snoc call _ _) ?_ nofun
    intro call k hmade
    rw [hpc, made_checking _ .refreshing .changed]
    exact hmade
  | changed hpc =>
    refine h.keep (fun call => requests_propertyChanged call s) ?_ nofun
    intro call k hmade
    rw [hpc, made_checking _ .changed .reading]
    exact hmade
  | armed _ => exact h.keep (fun call => requests_snoc call _ _) nofun nofun
  | notified _ => exact h.keep (fun call => requests_snoc call _ _) nofun nofun
  | raised _ => exact h.keep (fun call => requests_snoc call _ _) nofun nofun
  | resolved resolved => exact h.keep (fun _ => rfl) (fun _ _ hmade => hmade) h.bound
  | signalled value resolved =>
    exact h.keep (fun call => requests_snoc call _ _) (fun _ _ hmade => hmade) h.bound
  | busChanged =>
    refine h.keep (fun call => requests_propertyChanged call s) ?_ ?_
    · intro call k hmade
      rw [← propertyChanged_pc s]
      exact hmade
    · intro call i hreq
      exact h.bound call i ((propertyChanged_pc s).symm.trans hreq)

/-- After a `connect` that returned, the user is told of each disconnection, or a thread
is about to tell. -/
structure Told (s : PeripheralLinux) : Prop where
  armed : s.pc.confirming = true → s.onDisconnected = true
  loaded : established s.log = true ∨ s.pc.confirmed = true → s.onDisconnected = true
  telling : established s.log = true ∨ s.pc.confirmed = true → s.connected = false →
    s.busPending = true ∨ s.pc.pending = true ∨ told s.log = true

theorem Told.propertyChanged (h : Told s)
    (hpc : established s.log = true ∨ s.pc.confirmed = true) (hdown : s.connected = false) :
    told s.propertyChanged.log = true := by
  have hloaded := h.loaded hpc
  have htell : s.propertyChanged = s.tell .disconnected := by
    rw [PeripheralLinux.propertyChanged, if_pos (by rw [hdown, hloaded]; rfl)]
  rw [htell]
  exact told_snoc _ _

theorem established_propertyChanged (s : PeripheralLinux) :
    established s.propertyChanged.log = established s.log := by
  rcases propertyChanged_cases s with heq | ⟨_, _, heq⟩
  · rw [heq]
  · rw [heq]
    exact established_snoc _ _

theorem confirming_of_confirmed {pc : LinkPc} (h : pc.confirmed = true) :
    pc.confirming = true := by
  cases pc with
  | idle => cases h
  | requesting call i => cases h
  | waiting call i => cases h
  | arming => cases h
  | notifying => rfl
  | raising call => cases h
  | checking purpose pc =>
    cases purpose with
    | wait call i timedOut => cases h
    | poll => cases h
    | confirm call =>
      cases call with
      | connect => rfl
      | disconnect => cases h

theorem confirming_afterReply (call : LinkCall) (i : ℕ) (result : RequestResult) :
    (afterReply call i result).confirming = false := by
  cases result with
  | replied => cases call <;> rfl
  | raised => cases call <;> rfl
  | sendFailed =>
    cases call with
    | disconnect => rfl
    | connect =>
      rw [afterReply, nextAttempt]
      by_cases hlt : i + 1 < attemptCount
      · rw [if_pos hlt]
        rfl
      · rw [if_neg hlt]
        rfl

theorem checking_confirming (purpose : CheckPurpose) (pc pc' : CheckPc) :
    (LinkPc.checking purpose pc).confirming = (LinkPc.checking purpose pc').confirming := by
  cases purpose with
  | confirm call => cases call <;> rfl
  | wait => rfl
  | poll => rfl

theorem not_confirmed_of_unread {purpose : CheckPurpose} {pc : CheckPc}
    (hpc : pc = .changed ∨ pc = .reading) : (LinkPc.checking purpose pc).confirmed ≠ true := by
  rcases hpc with rfl | rfl
  · cases purpose with
    | confirm call => cases call <;> nofun
    | wait => nofun
    | poll => nofun
  · cases purpose with
    | confirm call => cases call <;> nofun
    | wait => nofun
    | poll => nofun

/-- Where the caller itself has nothing to tell, the bus thread has, or it has been told. -/
theorem Told.settled (h : Told s) (hpc : established s.log = true ∨ s.pc.confirmed = true)
    (hpending : s.pc.pending = false) (hdown : s.connected = false) :
    s.busPending = true ∨ told s.log = true := by
  rcases h.telling hpc hdown with hbus | hbefore | htold
  · exact Or.inl hbus
  · exact absurd (hpending.symm.trans hbefore) (by simp)
  · exact Or.inr htold

/-- An entry that neither establishes nor tells, on the way away from confirming. -/
theorem Told.pass (h : Told s) {e : LinkEntry} {pc : LinkPc}
    (hest : ∀ now, establishedStep now e = now) (htold : ∀ now, toldStep now e = now)
    (hpending : s.pc.pending = false) (hpc : pc.confirming = false) :
    Told ((s.tell e).goto pc) := by
  have hsame : established (s.log ++ [e]) = established s.log :=
    (established_snoc _ _).trans (hest _)
  have hnot : pc.confirmed ≠ true := by
    intro hconf
    exact absurd (hpc.symm.trans (confirming_of_confirmed hconf)) (by simp)
  constructor
  · intro hconf
    exact absurd (hpc.symm.trans hconf) (by simp)
  · rintro (hstays | hconf)
    · exact h.loaded (Or.inl (hsame.symm.trans hstays))
    · exact absurd hconf hnot
  · rintro (hstays | hconf) hdown
    · rcases h.settled (Or.inl (hsame.symm.trans hstays)) hpending hdown with hbus | htelling
      · exact Or.inl hbus
      · exact Or.inr (Or.inr ((told_snoc _ _).trans ((htold _).trans htelling)))
    · exact absurd hconf hnot

theorem Told.turn (h : Told s) {pc : LinkPc} (hfollows : Follows s.connected s.pc pc)
    (resolved : Bool) : Told ({ s with servicesResolved := resolved }.goto pc) := by
  constructor
  · exact fun hconf => h.armed (hfollows.confirming hconf)
  · rintro (hest | hconf)
    · exact h.loaded (Or.inl hest)
    · exact h.armed (hfollows.confirming (confirming_of_confirmed hconf))
  · intro hpc hdown
    have hbefore : established s.log = true ∨ s.pc.confirmed = true := by
      rcases hpc with hest | hconf
      · exact Or.inl hest
      -- `Connected` has just been read true, or had been before
      · rcases hfollows.confirmed hconf with hconf | hup
        · exact Or.inr hconf
        · exact absurd (hdown.symm.trans hup) (by simp)
    rcases h.settled hbefore hfollows.pending hdown with hbus | htold
    · exact Or.inl hbus
    · exact Or.inr (Or.inr htold)

/-- The property is stored; the thread that stored it is about to tell. -/
theorem Told.store (h : Told s) {value : Bool} (hlog : t.log = s.log ++ [.stored value])
    (hloaded : t.onDisconnected = s.onDisconnected)
    (hconfirming : t.pc.confirming = s.pc.confirming)
    (hconfirmed : t.pc.confirmed = true → s.pc.confirmed = true)
    (hpending : t.busPending = true ∨ t.pc.pending = true) : Told t := by
  have hest : established t.log = established s.log := by
    rw [hlog]
    exact established_snoc _ _
  constructor
  · rw [hconfirming, hloaded]
    exact h.armed
  · rw [hest, hloaded]
    rintro (hstays | hconf)
    · exact h.loaded (Or.inl hstays)
    · exact h.loaded (Or.inr (hconfirmed hconf))
  · intro _ _
    rcases hpending with hbus | hpc
    · exact Or.inl hbus
    · exact Or.inr (Or.inl hpc)

/-- `property_changed` has been called, by either thread. -/
theorem Told.announced (h : Told s) (hlog : t.log = s.propertyChanged.log)
    (hloaded : t.onDisconnected = s.onDisconnected) (hconnected : t.connected = s.connected)
    (hconfirming : t.pc.confirming = true → s.pc.confirming = true)
    (hconfirmed : t.pc.confirmed = true → s.pc.confirmed = true) : Told t := by
  have hbefore : established t.log = true ∨ t.pc.confirmed = true →
      established s.log = true ∨ s.pc.confirmed = true := by
    rw [hlog, established_propertyChanged]
    exact Or.imp_right hconfirmed
  constructor
  · intro hpc
    rw [hloaded]
    exact h.armed (hconfirming hpc)
  · intro hpc
    rw [hloaded]
    exact h.loaded (hbefore hpc)
  · intro hpc hdown
    rw [hlog]
    exact Or.inr (Or.inr (h.propertyChanged (hbefore hpc) (hconnected.symm.trans hdown)))

theorem Told.began (hlog : t.log = s.log ++ [.began .connect]) (hpc : t.pc.confirming = false) :
    Told t := by
  have hnot : ¬ (established t.log = true ∨ t.pc.confirmed = true) := by
    rw [hlog]
    rintro (hest | hconf)
    · exact absurd ((established_snoc _ _).symm.trans hest) (by simp [establishedStep])
    · exact absurd (hpc.symm.trans (confirming_of_confirmed hconf)) (by simp)
  constructor
  · intro hconf
    exact absurd (hpc.symm.trans hconf) (by simp)
  · exact fun hest => absurd hest hnot
  · exact fun hest => absurd hest hnot

theorem Told.effect (h : Told s) (ht : LinkEffect s t) : Told t := by
  cases ht with
  | turn resolved hfollows => exact h.turn hfollows resolved
  | resolved resolved => exact ⟨h.armed, h.loaded, h.telling⟩
  | beganConnect => exact Told.began (s := s) rfl rfl
  | beganDisconnect hpc =>
    exact h.pass (fun _ => rfl) (fun _ => rfl) (by rw [hpc]; rfl) rfl
  | requested result hpc =>
    exact h.pass (fun _ => rfl) (fun _ => rfl) (by rw [hpc]; rfl) (confirming_afterReply _ _ _)
  | raised hpc =>
    exact h.pass (fun _ => rfl) (fun _ => rfl) (by rw [hpc]; rfl) rfl
  | refreshed value hpc =>
    refine h.store rfl rfl ?_ ?_ (Or.inr rfl)
    · rw [hpc]
      exact checking_confirming _ _ _
    · exact fun hconf => absurd hconf (not_confirmed_of_unread (Or.inl rfl))
  | signalled value resolved => exact h.store rfl rfl rfl (fun hconf => hconf) (Or.inl rfl)
  | changed hpc =>
    refine Told.announced h rfl (propertyChanged_onDisconnected s) (propertyChanged_connected s)
      ?_ ?_
    · intro hconf
      rw [hpc, checking_confirming _ .changed .reading]
      exact hconf
    · exact fun hconf => absurd hconf (not_confirmed_of_unread (Or.inr rfl))
  | armed hpc =>
    -- the callback is loaded from here on
    constructor
    · exact fun _ => rfl
    · exact fun _ => rfl
    · rintro (hest | hconf) hdown
      · have hbefore := (established_snoc _ _).symm.trans hest
        rcases h.settled (Or.inl hbefore) (by rw [hpc]; rfl) hdown with hbus | htold
        · exact Or.inl hbus
        · exact Or.inr (Or.inr ((told_snoc _ _).trans htold))
      · cases hconf
  | notified hpc =>
    have hconf : s.pc.confirmed = true := by
      rw [hpc]
      rfl
    constructor
    · nofun
    · exact fun _ => h.loaded (Or.inr hconf)
    · intro _ hdown
      rcases h.settled (Or.inr hconf) (by rw [hpc]; rfl) hdown with hbus | htold
      · exact Or.inl hbus
      · exact Or.inr (Or.inr ((told_snoc _ _).trans htold))
  | busChanged =>
    refine Told.announced h rfl (propertyChanged_onDisconnected s) (propertyChanged_connected s)
      ?_ ?_
    · intro hconf
      rw [← propertyChanged_pc s]
      exact hconf
    · intro hconf
      rw [← propertyChanged_pc s]
      exact hconf

/-- What holds in every state of every run. -/
structure LinkInv (s : PeripheralLinux) : Prop where
  quiet : Quiet s
  counted : Counted s
  told : Told s

theorem LinkInv.initial : LinkInv PeripheralLinux.initial where
  quiet := ⟨nofun, nofun⟩
  counted := ⟨fun _ => Nat.zero_le _, nofun, nofun⟩
  told := by
    constructor
    · nofun
    · rintro (hest | hconf)
      · cases hest
      · cases hconf
    · rintro (hest | hconf)
      · cases hest
      · cases hconf

theorem LinkInv.of_reachable (hreach : Reachable PeripheralLinux.step PeripheralLinux.initial s) :
    LinkInv s := by
  refine hreach.invariant LinkInv LinkInv.initial ?_
  intro t a u h hs
  have ht := effect_of_step hs
  exact ⟨h.quiet.effect ht, h.counted.effect ht, h.told.effect ht⟩

/-- One request cannot be sent, the next succeeds; the device disconnects before the user
is told that it is connected. -/
def hastyDevice : List LinkAction :=
  [.connect, .request .sendFailed, .request .replied, .refresh none, .advance,
    .signal (some true) (some true), .busChanged, .wake false, .refresh (some true), .advance,
    .refresh none, .advance, .advance, .refresh none, .advance, .refresh none, .advance,
    .signal (some false) none, .busChanged, .advance]

def hasty : PeripheralLinux := (exec PeripheralLinux.step hastyDevice .initial).getD .initial

theorem hasty_reachable : Reachable PeripheralLinux.step PeripheralLinux.initial hasty :=
  reachable_of_exec (rfl : exec PeripheralLinux.step hastyDevice .initial = some hasty)

/-- What the user hears last may still be that the device is connected. -/
example : hasty.log.drop 4 =
    [.armed, .stored false, .disconnected, .connected] ∧ hasty.connected = false := ⟨rfl, rfl⟩

end RCControl
