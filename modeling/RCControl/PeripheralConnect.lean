import RCControl.StepSystem
import Mathlib.Data.List.Basic
import Mathlib.Tactic.Common

/-! `connect`, `disconnect` and `is_connected` of `PeripheralLinux` on the thread of the
user, with the property changes of the device on the bus thread. -/
namespace RCControl
open StepSystem

inductive LinkCall
  | connect
  | disconnect
deriving DecidableEq, Repr

/-- What the user, the device and the property cache see in turn. -/
inductive LinkEntry
  | began (call : LinkCall)
  | requested (call : LinkCall)
  | armed
  | connected
  | failed (call : LinkCall)
  | disconnected
  | stored (value : Bool)
deriving DecidableEq, Repr

/-- Why `is_connected` is asked: by the wait of attempt `i`, by the end of a call, or by
the user. -/
inductive CheckPurpose
  | wait (call : LinkCall) (i : ℕ) (timedOut : Bool)
  | confirm (call : LinkCall)
  | poll
deriving DecidableEq, Repr

/-- The next statement of `is_connected`. -/
inductive CheckPc
  | refreshing
  | changed
  | reading
  | refreshingResolved
  | readingResolved
deriving DecidableEq, Repr

inductive LinkPc
  | idle
  | requesting (call : LinkCall) (i : ℕ)
  | waiting (call : LinkCall) (i : ℕ)
  | checking (purpose : CheckPurpose) (pc : CheckPc)
  | arming
  | notifying
  | raising (call : LinkCall)
deriving DecidableEq, Repr

/-- `connected` and `servicesResolved` are the cached properties, `onDisconnected` says
whether that callback is loaded, and `busPending` whether the bus thread has stored
`Connected` and not called `property_changed` yet. -/
structure PeripheralLinux where
  connected : Bool
  servicesResolved : Bool
  onDisconnected : Bool
  busPending : Bool
  pc : LinkPc
  log : List LinkEntry
deriving DecidableEq, Repr

/-- The reply to a `Connect` or `Disconnect`; `raised` is any other exception. -/
inductive RequestResult
  | replied
  | sendFailed
  | raised
deriving DecidableEq, Repr

/-- `refresh` is the answer to a property read, `none` when it cannot be sent; `signal`
is a `PropertiesChanged` from the device. -/
inductive LinkAction
  | connect
  | disconnect
  | poll
  | request (result : RequestResult)
  | refresh (value : Option Bool)
  | advance
  | wake (timedOut : Bool)
  | signal (connected servicesResolved : Option Bool)
  | busChanged
deriving DecidableEq, Repr

/-- The bound of the `for` loops in `connect` and `disconnect`. -/
def attemptCount : ℕ := 5

namespace PeripheralLinux

def initial : PeripheralLinux where
  connected := false
  servicesResolved := false
  onDisconnected := false
  busPending := false
  pc := .idle
  log := []

def goto (s : PeripheralLinux) (pc : LinkPc) : PeripheralLinux := { s with pc := pc }

def tell (s : PeripheralLinux) (entry : LinkEntry) : PeripheralLinux :=
  { s with log := s.log ++ [entry] }

def store (s : PeripheralLinux) (value : Bool) : PeripheralLinux :=
  { s with connected := value, log := s.log ++ [.stored value] }

/-- `Device1::property_changed("Connected")`. -/
def propertyChanged (s : PeripheralLinux) : PeripheralLinux :=
  if !s.connected && s.onDisconnected then s.tell .disconnected else s

/-- After the last attempt: `connect` loads the callback, `disconnect` asks once more. -/
def conclude : LinkCall → LinkPc
  | .connect => .arming
  | .disconnect => .checking (.confirm .disconnect) .refreshing

/-- Attempt `i` has failed. -/
def nextAttempt (call : LinkCall) (i : ℕ) : LinkPc :=
  if i + 1 < attemptCount then .requesting call (i + 1) else conclude call

/-- The reply to attempt `i`; only `connect` catches `SendFailed`. -/
def afterReply : LinkCall → ℕ → RequestResult → LinkPc
  | call, i, .replied => .checking (.wait call i false) .refreshing
  | .connect, i, .sendFailed => nextAttempt .connect i
  | .disconnect, _, .sendFailed => .raising .disconnect
  | call, _, .raised => .raising call

/-- `connect` waits for `is_connected`, `disconnect` for its negation. -/
def reached : LinkCall → Bool → Bool
  | .connect, isConnected => isConnected
  | .disconnect, isConnected => !isConnected

/-- Where the caller of `is_connected` goes on. -/
def afterCheck (isConnected : Bool) : CheckPurpose → LinkPc
  | .wait call i timedOut =>
    if reached call isConnected then conclude call
    else if timedOut then nextAttempt call i
    else .waiting call i
  | .confirm .connect => if isConnected then .notifying else .raising .connect
  | .confirm .disconnect => if isConnected then .raising .disconnect else .idle
  | .poll => .idle

def advance (s : PeripheralLinux) : Option PeripheralLinux :=
  match s.pc with
  | .checking purpose .changed => some (s.propertyChanged.goto (.checking purpose .reading))
  | .checking purpose .reading =>
    some (s.goto (if s.connected then .checking purpose .refreshingResolved
      else afterCheck false purpose))
  | .checking purpose .readingResolved => some (s.goto (afterCheck s.servicesResolved purpose))
  | .arming =>
    some (({ s with onDisconnected := true }.tell .armed).goto
      (.checking (.confirm .connect) .refreshing))
  | .notifying => some ((s.tell .connected).goto .idle)
  | .raising call => some ((s.tell (.failed call)).goto .idle)
  | _ => none

/-- `property_refresh` up to its call of `property_changed`. -/
def refresh (s : PeripheralLinux) (value : Option Bool) : Option PeripheralLinux :=
  match s.pc with
  | .checking purpose .refreshing =>
    match value with
    | some value =>
      if s.connected = value then some (s.goto (.checking purpose .reading))
      else some ((s.store value).goto (.checking purpose .changed))
    | none => some (s.goto (.checking purpose .reading))
  | .checking purpose .refreshingResolved =>
    some ({ s with servicesResolved := value.getD s.servicesResolved }.goto
      (.checking purpose .readingResolved))
  | _ => none

/-- `signal_property_changed` up to its calls of `property_changed`. -/
def signal (s : PeripheralLinux) (connected servicesResolved : Option Bool) :
    PeripheralLinux :=
  let resolved := { s with servicesResolved := servicesResolved.getD s.servicesResolved }
  match connected with
  | some value => { resolved.store value with busPending := true }
  | none => resolved

def step : LinkAction → PeripheralLinux → Option PeripheralLinux
  | .connect, s =>
    if s.pc = .idle then
      some (({ s with onDisconnected := false }.tell (.began .connect)).goto
        (.requesting .connect 0))
    else none
  | .disconnect, s =>
    if s.pc = .idle then
      some ((s.tell (.began .disconnect)).goto (.requesting .disconnect 0))
    else none
  | .poll, s => if s.pc = .idle then some (s.goto (.checking .poll .refreshing)) else none
  | .request result, s =>
    match s.pc with
    | .requesting call i => some ((s.tell (.requested call)).goto (afterReply call i result))
    | _ => none
  | .refresh value, s => s.refresh value
  | .advance, s => s.advance
  | .wake timedOut, s =>
    match s.pc with
    | .waiting call i => some (s.goto (.checking (.wait call i timedOut) .refreshing))
    | _ => none
  | .signal connected servicesResolved, s =>
    if s.busPending then none else some (s.signal connected servicesResolved)
  | .busChanged, s =>
    if s.busPending then some { s.propertyChanged with busPending := false } else none

end PeripheralLinux

open PeripheralLinux

/-- Whether `connect` is making its attempts, or was left in the midst of them. -/
def attemptingStep (now : Bool) : LinkEntry → Bool
  | .began .connect => true
  | .armed => false
  | _ => now

def attempting (log : List LinkEntry) : Bool := log.foldl attemptingStep false

/-- The requests made by the last call. -/
def requestsStep (call : LinkCall) (n : ℕ) : LinkEntry → ℕ
  | .began call' => if call' = call then 0 else n
  | .requested call' => if call' = call then n + 1 else n
  | _ => n

def requests (call : LinkCall) (log : List LinkEntry) : ℕ := log.foldl (requestsStep call) 0

/-- Whether the last `connect` has returned normally. -/
def establishedStep (now : Bool) : LinkEntry → Bool
  | .connected => true
  | .began .connect => false
  | _ => now

def established (log : List LinkEntry) : Bool := log.foldl establishedStep false

/-- Whether the user has been told of a disconnection since `Connected` was last true. -/
def toldStep (now : Bool) : LinkEntry → Bool
  | .stored true => false
  | .disconnected => true
  | _ => now

def told (log : List LinkEntry) : Bool := log.foldl toldStep false

/-- How many requests the call has made at this point. -/
def LinkPc.made : LinkPc → Option (LinkCall × ℕ)
  | .requesting call i => some (call, i)
  | .waiting call i => some (call, i + 1)
  | .checking (.wait call i _) _ => some (call, i + 1)
  | _ => none

/-- Whether `connect` asks `is_connected` for the last time. -/
def LinkPc.confirming : LinkPc → Bool
  | .checking (.confirm .connect) _ => true
  | .notifying => true
  | _ => false

/-- Whether it has read that the device is connected. -/
def LinkPc.confirmed : LinkPc → Bool
  | .checking (.confirm .connect) .refreshingResolved => true
  | .checking (.confirm .connect) .readingResolved => true
  | .notifying => true
  | _ => false

/-- Whether this thread has stored `Connected` and not called `property_changed` yet. -/
def LinkPc.pending : LinkPc → Bool
  | .checking _ .changed => true
  | _ => false

variable {s t : PeripheralLinux}

/-- A move of the thread of the user that counts no request and skips no check. -/
structure Follows (connected : Bool) (pc pc' : LinkPc) : Prop where
  made : ∀ call k, pc'.made = some (call, k) → pc.made = some (call, k)
  bound : ∀ call i, pc' = .requesting call i → i < attemptCount
  confirming : pc'.confirming = true → pc.confirming = true
  confirmed : pc'.confirmed = true → pc.confirmed = true ∨ connected = true
  pending : pc.pending = false

theorem follows_nextAttempt {connected : Bool} {call : LinkCall} {i : ℕ} {timedOut : Bool}
    {pc : CheckPc} (hpc : pc ≠ .changed) :
    Follows connected (.checking (.wait call i timedOut) pc) (nextAttempt call i) := by
  have hpending : (LinkPc.checking (.wait call i timedOut) pc).pending = false := by
    cases pc <;> first | rfl | exact absurd rfl hpc
  rw [nextAttempt]
  by_cases hlt : i + 1 < attemptCount
  · rw [if_pos hlt]
    exact ⟨fun _ _ h => h, fun _ _ h => by cases h; exact hlt, nofun, nofun, hpending⟩
  · rw [if_neg hlt]
    cases call <;> exact ⟨nofun, nofun, nofun, nofun, hpending⟩

theorem follows_afterCheck {connected isConnected : Bool} {purpose : CheckPurpose} {pc : CheckPc}
    (hpc : pc ≠ .changed)
    (hread : isConnected = true → (LinkPc.checking purpose pc).confirming = true →
      (LinkPc.checking purpose pc).confirmed = true ∨ connected = true) :
    Follows connected (.checking purpose pc) (afterCheck isConnected purpose) := by
  have hpending : (LinkPc.checking purpose pc).pending = false := by
    cases pc <;> first | rfl | exact absurd rfl hpc
  cases purpose with
  | poll => exact ⟨nofun, nofun, nofun, nofun, hpending⟩
  | confirm call =>
    cases call with
    | disconnect => cases isConnected <;> exact ⟨nofun, nofun, nofun, nofun, hpending⟩
    | connect =>
      cases isConnected with
      | false => exact ⟨nofun, nofun, nofun, nofun, hpending⟩
      | true => exact ⟨nofun, nofun, fun _ => rfl, fun _ => hread rfl rfl, hpending⟩
  | wait call i timedOut =>
    rw [afterCheck]
    by_cases hreached : reached call isConnected = true
    · rw [if_pos hreached]
      cases call <;> exact ⟨nofun, nofun, nofun, nofun, hpending⟩
    · rw [if_neg hreached]
      cases timedOut with
      | true => exact follows_nextAttempt hpc
      | false => exact ⟨fun _ _ h => h, nofun, nofun, nofun, hpending⟩

/-- Everything that one step can do. -/
inductive LinkEffect (s : PeripheralLinux) : PeripheralLinux → Prop
  | turn {pc : LinkPc} (resolved : Bool) : Follows s.connected s.pc pc →
      LinkEffect s ({ s with servicesResolved := resolved }.goto pc)
  | beganConnect : LinkEffect s (({ s with onDisconnected := false }.tell (.began .connect)).goto
      (.requesting .connect 0))
  | beganDisconnect : s.pc = .idle →
      LinkEffect s ((s.tell (.began .disconnect)).goto (.requesting .disconnect 0))
  | requested {call : LinkCall} {i : ℕ} (result : RequestResult) : s.pc = .requesting call i →
      LinkEffect s ((s.tell (.requested call)).goto (afterReply call i result))
  | refreshed {purpose : CheckPurpose} (value : Bool) : s.pc = .checking purpose .refreshing →
      LinkEffect s ((s.store value).goto (.checking purpose .changed))
  | changed {purpose : CheckPurpose} : s.pc = .checking purpose .changed →
      LinkEffect s (s.propertyChanged.goto (.checking purpose .reading))
  | armed : s.pc = .arming →
      LinkEffect s (({ s with onDisconnected := true }.tell .armed).goto
        (.checking (.confirm .connect) .refreshing))
  | notified : s.pc = .notifying → LinkEffect s ((s.tell .connected).goto .idle)
  | raised {call : LinkCall} : s.pc = .raising call →
      LinkEffect s ((s.tell (.failed call)).goto .idle)
  | resolved (resolved : Bool) : LinkEffect s { s with servicesResolved := resolved }
  | signalled (value resolved : Bool) :
      LinkEffect s { { s with servicesResolved := resolved }.store value with busPending := true }
  | busChanged : LinkEffect s { s.propertyChanged with busPending := false }

theorem effect_of_advance (hs : s.advance = some t) : LinkEffect s t := by
  rw [PeripheralLinux.advance] at hs
  cases hpc : s.pc with
  | idle =>
    simp only [hpc] at hs
    exact absurd hs (by simp)
  | requesting call i =>
    simp only [hpc] at hs
    exact absurd hs (by simp)
  | waiting call i =>
    simp only [hpc] at hs
    exact absurd hs (by simp)
  | arming =>
    simp only [hpc, Option.some.injEq] at hs
    rw [← hs]
    exact .armed hpc
  | notifying =>
    simp only [hpc, Option.some.injEq] at hs
    rw [← hs]
    exact .notified hpc
  | raising call =>
    simp only [hpc, Option.some.injEq] at hs
    rw [← hs]
    exact .raised hpc
  | checking purpose pc =>
    cases pc with
    | refreshing =>
      simp only [hpc] at hs
      exact absurd hs (by simp)
    | refreshingResolved =>
      simp only [hpc] at hs
      exact absurd hs (by simp)
    | changed =>
      simp only [hpc, Option.some.injEq] at hs
      rw [← hs]
      exact .changed hpc
    | reading =>
      simp only [hpc, Option.some.injEq] at hs
      rw [← hs]
      apply LinkEffect.turn s.servicesResolved
      rw [hpc]
      cases hconnected : s.connected with
      | false => exact follows_afterCheck (by simp) nofun
      | true =>
        refine ⟨fun _ _ h => ?_, nofun, fun h => ?_, fun _ => Or.inr rfl, rfl⟩
        · cases purpose <;> exact h
        · cases purpose with
          | confirm call => cases call <;> exact h
          | wait => exact h
          | poll => exact h
    | readingResolved =>
      simp only [hpc, Option.some.injEq] at hs
      rw [← hs]
      apply LinkEffect.turn s.servicesResolved
      rw [hpc]
      apply follows_afterCheck (by simp)
      intro _ hconfirming
      left
      cases purpose with
      | confirm call => cases call <;> exact hconfirming
      | wait => exact hconfirming
      | poll => exact hconfirming

theorem effect_of_refresh {value : Option Bool} (hs : s.refresh value = some t) :
    LinkEffect s t := by
  have hread : ∀ (connected : Bool) (purpose : CheckPurpose), Follows connected
      (.checking purpose .refreshing) (.checking purpose .reading) := by
    intro connected purpose
    cases purpose with
    | poll => exact ⟨nofun, nofun, nofun, nofun, rfl⟩
    | confirm call => cases call <;> exact ⟨nofun, nofun, fun h => h, nofun, rfl⟩
    | wait call i timedOut => exact ⟨fun _ _ h => h, nofun, nofun, nofun, rfl⟩
  rw [PeripheralLinux.refresh] at hs
  split at hs
  · rename_i purpose hpc
    cases value with
    | none =>
      rw [← Option.some.inj hs]
      apply LinkEffect.turn s.servicesResolved
      rw [hpc]
      exact hread _ _
    | some value =>
      by_cases hsame : s.connected = value
      · simp only [if_pos hsame, Option.some.injEq] at hs
        rw [← hs]
        apply LinkEffect.turn s.servicesResolved
        rw [hpc]
        exact hread _ _
      · simp only [if_neg hsame, Option.some.injEq] at hs
        rw [← hs]
        exact .refreshed value hpc
  · rename_i purpose hpc
    rw [← Option.some.inj hs]
    apply LinkEffect.turn (value.getD s.servicesResolved)
    rw [hpc]
    cases purpose with
    | poll => exact ⟨nofun, nofun, nofun, nofun, rfl⟩
    | wait call i timedOut => exact ⟨fun _ _ h => h, nofun, nofun, nofun, rfl⟩
    | confirm call =>
      cases call with
      | connect => exact ⟨nofun, nofun, fun h => h, fun _ => Or.inl rfl, rfl⟩
      | disconnect => exact ⟨nofun, nofun, nofun, nofun, rfl⟩
  · exact absurd hs (by simp)

theorem effect_of_step {a : LinkAction} (hs : PeripheralLinux.step a s = some t) :
    LinkEffect s t := by
  cases a with
  | advance => exact effect_of_advance hs
  | refresh value => exact effect_of_refresh hs
  | connect =>
    by_cases hpc : s.pc = .idle
    · rw [PeripheralLinux.step, if_pos hpc, Option.some.injEq] at hs
      rw [← hs]
      exact .beganConnect
    · rw [PeripheralLinux.step, if_neg hpc] at hs
      exact absurd hs (by simp)
  | disconnect =>
    by_cases hpc : s.pc = .idle
    · rw [PeripheralLinux.step, if_pos hpc, Option.some.injEq] at hs
      rw [← hs]
      exact .beganDisconnect hpc
    · rw [PeripheralLinux.step, if_neg hpc] at hs
      exact absurd hs (by simp)
  | poll =>
    by_cases hpc : s.pc = .idle
    · rw [PeripheralLinux.step, if_pos hpc, Option.some.injEq] at hs
      rw [← hs]
      apply LinkEffect.turn s.servicesResolved
      rw [hpc]
      exact ⟨nofun, nofun, nofun, nofun, rfl⟩
    · rw [PeripheralLinux.step, if_neg hpc] at hs
      exact absurd hs (by simp)
  | request result =>
    rw [PeripheralLinux.step] at hs
    split at hs
    · rename_i call i hpc
      rw [← Option.some.inj hs]
      exact .requested result hpc
    · exact absurd hs (by simp)
  | wake timedOut =>
    rw [PeripheralLinux.step] at hs
    split at hs
    · rename_i call i hpc
      rw [← Option.some.inj hs]
      apply LinkEffect.turn s.servicesResolved
      rw [hpc]
      exact ⟨fun _ _ h => h, nofun, nofun, nofun, rfl⟩
    · exact absurd hs (by simp)
  | signal connected servicesResolved =>
    by_cases hpending : s.busPending = true
    · rw [PeripheralLinux.step, if_pos hpending] at hs
      exact absurd hs (by simp)
    · rw [PeripheralLinux.step, if_neg hpending, Option.some.injEq] at hs
      rw [← hs]
      cases connected with
      | none => exact .resolved _
      | some value => exact .signalled value _
  | busChanged =>
    by_cases hpending : s.busPending = true
    · rw [PeripheralLinux.step, if_pos hpending, Option.some.injEq] at hs
      rw [← hs]
      exact .busChanged
    · rw [PeripheralLinux.step, if_neg hpending] at hs
      exact absurd hs (by simp)

theorem attempting_snoc (log : List LinkEntry) (e : LinkEntry) :
    attempting (log ++ [e]) = attemptingStep (attempting log) e := by
  rw [attempting, List.foldl_append]
  rfl

theorem requests_snoc (call : LinkCall) (log : List LinkEntry) (e : LinkEntry) :
    requests call (log ++ [e]) = requestsStep call (requests call log) e := by
  rw [requests, List.foldl_append]
  rfl

theorem established_snoc (log : List LinkEntry) (e : LinkEntry) :
    established (log ++ [e]) = establishedStep (established log) e := by
  rw [established, List.foldl_append]
  rfl

theorem told_snoc (log : List LinkEntry) (e : LinkEntry) :
    told (log ++ [e]) = toldStep (told log) e := by
  rw [told, List.foldl_append]
  rfl

theorem propertyChanged_cases (s : PeripheralLinux) :
    s.propertyChanged = s ∨
      (s.connected = false ∧ s.onDisconnected = true ∧ s.propertyChanged = s.tell .disconnected) := by
  rw [PeripheralLinux.propertyChanged]
  by_cases h : (!s.connected && s.onDisconnected) = true
  · rw [if_pos h]
    simp only [Bool.and_eq_true, Bool.not_eq_true'] at h
    exact Or.inr ⟨h.1, h.2, rfl⟩
  · rw [if_neg h]
    exact Or.inl rfl

@[simp] theorem propertyChanged_pc (s : PeripheralLinux) : s.propertyChanged.pc = s.pc := by
  rcases propertyChanged_cases s with heq | ⟨_, _, heq⟩ <;> rw [heq]
  rfl

@[simp] theorem propertyChanged_connected (s : PeripheralLinux) :
    s.propertyChanged.connected = s.connected := by
  rcases propertyChanged_cases s with heq | ⟨_, _, heq⟩ <;> rw [heq]
  rfl

@[simp] theorem propertyChanged_onDisconnected (s : PeripheralLinux) :
    s.propertyChanged.onDisconnected = s.onDisconnected := by
  rcases propertyChanged_cases s with heq | ⟨_, _, heq⟩ <;> rw [heq]
  rfl

end RCControl
