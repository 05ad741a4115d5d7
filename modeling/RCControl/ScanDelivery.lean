import RCControl.ScanCallbacks
import RCControl.ScanReports
import RCControl.SingleScan

/-! The scan reports on their way through the C interface: each found peripheral is
wrapped in a new handle, and the handles the program releases are deleted. -/
namespace RCControl
open Resumption StepSystem

/-- The live handles in order of their creation, with the object each of them wraps,
and the handles that were deleted without being live. -/
structure HandleHeap where
  live : List (Handle × ℕ)
  dangling : List Handle
deriving Repr

/-- Where `new` puts a handle: never at `NULL` and never at a live one. -/
structure Allocator where
  next : ℕ → List Handle → Handle
  next_ne_null : ∀ t used, next t used ≠ 0
  next_fresh : ∀ t used, next t used ∉ used

namespace HandleHeap

def empty : HandleHeap := ⟨[], []⟩

def handles (heap : HandleHeap) : List Handle := heap.live.map Prod.fst

/-- `new SimpleBLE::Safe::Peripheral(peripheral)`. -/
def wrap (heap : HandleHeap) (handle : Handle) (peripheral : ℕ) : HandleHeap :=
  { heap with live := heap.live ++ [(handle, peripheral)] }

/-- `simpleble_peripheral_release_handle`. -/
def release (heap : HandleHeap) (handle : Handle) : HandleHeap :=
  if handle = 0 then heap
  else if handle ∈ heap.handles then
    { heap with live := heap.live.filter fun e => e.1 ≠ handle }
  else { heap with dangling := heap.dangling ++ [handle] }

theorem release_live {heap : HandleHeap} {handle : Handle} (hne : handle ≠ 0)
    (hmem : handle ∈ heap.handles) :
    heap.release handle = ⟨heap.live.filter fun e => e.1 ≠ handle, heap.dangling⟩ := by
  rw [release, if_neg hne, if_pos hmem]

/-- Releasing the newest handle undoes its creation. -/
theorem release_wrap {heap : HandleHeap} {handle : Handle} (hne : handle ≠ 0)
    (hfresh : handle ∉ heap.handles) (peripheral : ℕ) :
    (heap.wrap handle peripheral).release handle = heap := by
  have hmem : handle ∈ (heap.wrap handle peripheral).handles := by
    simp [wrap, handles]
  have hkept : heap.live.filter (fun e => e.1 ≠ handle) = heap.live := by
    apply List.filter_eq_self.mpr
    intro e he
    apply decide_eq_true
    intro heq
    exact hfresh (heq ▸ List.mem_map_of_mem he)
  rw [release_live hne hmem]
  show HandleHeap.mk ((heap.live ++ [(handle, peripheral)]).filter fun e => e.1 ≠ handle)
    heap.dangling = heap
  rw [List.filter_append, hkept, List.filter_cons_of_neg (by simp), List.filter_nil,
    List.append_nil]

/-- Releasing each live handle once, in order, empties the heap. -/
theorem releaseAll_live (live : List (Handle × ℕ)) (dangling : List Handle)
    (hnodup : (live.map Prod.fst).Nodup) (hne : 0 ∉ live.map Prod.fst) :
    (live.map Prod.fst).foldl release ⟨live, dangling⟩ = ⟨[], dangling⟩ := by
  induction live with
  | nil => rfl
  | cons e live ih =>
    rw [List.map_cons] at hnodup hne ⊢
    obtain ⟨hnot, hrest⟩ := List.nodup_cons.mp hnodup
    obtain ⟨hzero, hzeros⟩ := not_or.mp (fun h => hne (List.mem_cons.mpr h))
    have hkept : live.filter (fun e' => e'.1 ≠ e.1) = live := by
      apply List.filter_eq_self.mpr
      intro e' he'
      apply decide_eq_true
      intro heq
      exact hnot (heq ▸ List.mem_map_of_mem he')
    have hfirst : release ⟨e :: live, dangling⟩ e.1 = ⟨live, dangling⟩ := by
      rw [release_live (Ne.symm hzero) (by simp [handles])]
      show HandleHeap.mk ((e :: live).filter fun e' => e'.1 ≠ e.1) dangling = _
      rw [List.filter_cons_of_neg (by simp), hkept]
    rw [List.foldl_cons, hfirst]
    exact ih hrest hzeros

end HandleHeap

/-- `scan.c` with the handles it has been given. -/
structure Client where
  world : BleWorld
  heap : HandleHeap

namespace Client

/-- The program went on to `world`, where the handles it released are deleted. -/
def settle (d : Client) (world : BleWorld) : Client where
  world := world
  heap := ((released world.log).drop (released d.world.log).length).foldl HandleHeap.release d.heap

variable {Address : Type} (library : Library) (allocator : Allocator) (adapter : Handle)

/-- The handle the next peripheral is wrapped in. -/
def nextHandle (d : Client) : Handle := allocator.next d.world.log.length d.heap.handles

/-- What the functions handed to `simpleble_adapter_set_callback_on_scan_start`,
`..._stop` and `..._found` do; no callback is set for updates. -/
def receive (d : Client) : ScanEntry Address → Client
  | .cleared _ => d
  | .started => d.settle (deliver library adapter d.world .started)
  | .stopped => d.settle (deliver library adapter d.world .stopped)
  | .device report =>
    if report.found then
      ({ d with heap := d.heap.wrap (d.nextHandle allocator) report.peripheral } : Client).settle
        (deliver library adapter d.world (.found (d.nextHandle allocator)))
    else d

def receiveAll (log : List (ScanEntry Address)) (d : Client) : Client :=
  log.foldl (receive library allocator adapter) d

/-- The exit handler of the program. -/
def exit (d : Client) : Client :=
  d.settle (cleanOnExit.run (perform library .cleanOnExit) d.world).2

end Client

/-- The list holds the handles of `b`, which wrap `objects` and are all that is live. -/
structure Client.Holds (d : Client) (b : BoundedStore Handle peripheralListSize)
    (objects : List ℕ) : Prop where
  represents : d.world.Represents b
  live : d.heap.live = b.items.zip objects
  length_eq : b.items.length = objects.length
  nodup : b.items.Nodup
  ne_null : 0 ∉ b.items
  dangling : d.heap.dangling = []

theorem Client.settle_eq (d : Client) {u : BleWorld} {handles : List Handle}
    (hu : released u.log = released d.world.log ++ handles) :
    d.settle u = ⟨u, handles.foldl HandleHeap.release d.heap⟩ := by
  rw [settle, hu, List.drop_left]

namespace Client.Holds
variable {d : Client} {b : BoundedStore Handle peripheralListSize} {objects : List ℕ}

theorem handles (h : d.Holds b objects) : d.heap.handles = b.items := by
  rw [HandleHeap.handles, h.live]
  exact List.map_fst_zip (Nat.le_of_eq h.length_eq)

/-- A callback that releases nothing and leaves the list as it is. -/
theorem settle_quiet (h : d.Holds b objects) {u : BleWorld} (hu : u.Represents b)
    (hreleased : released u.log = released d.world.log) : (d.settle u).Holds b objects := by
  have hnone : released u.log = released d.world.log ++ [] := by
    rw [hreleased, List.append_nil]
  have heq : d.settle u = ⟨u, d.heap⟩ := d.settle_eq hnone
  rw [heq]
  exact { h with represents := hu }

variable {Address : Type} {library : Library} (allocator : Allocator) (adapter : Handle)

omit allocator in
theorem deliver_found (hstr : StringsGiven library) {w : BleWorld} (hw : w.Represents b)
    (handle : Handle) :
    (deliver library adapter w (.found handle)).Represents (b.offer handle).1 ∧
      released (deliver library adapter w (.found handle)).log =
        released w.log ++ (b.offer handle).2 := by
  have h := adapterOnScanFound_wp library adapter handle hw
  simp only [Prog.Wp] at h
  rw [if_pos (hstr.complete adapter handle w)] at h
  exact h.2

/-- With room left the new handle joins the list, without room it is deleted again. -/
theorem found (h : d.Holds b objects) (hstr : StringsGiven library) (peripheral : ℕ) :
    ∃ c, (({ d with heap := d.heap.wrap (d.nextHandle allocator) peripheral } : Client).settle
      (deliver library adapter d.world (.found (d.nextHandle allocator)))).Holds c
        ((objects ++ [peripheral]).take peripheralListSize) := by
  have hne : d.nextHandle allocator ≠ 0 := allocator.next_ne_null _ _
  have hfresh : d.nextHandle allocator ∉ d.heap.handles := allocator.next_fresh _ _
  generalize d.nextHandle allocator = handle at hne hfresh ⊢
  have hnot : handle ∉ b.items := h.handles ▸ hfresh
  obtain ⟨hrep, hreleased⟩ := deliver_found adapter hstr h.represents handle
  refine ⟨(b.offer handle).1, ?_⟩
  rw [Client.settle_eq { d with heap := d.heap.wrap handle peripheral } hreleased]
  by_cases hroom : b.items.length < peripheralListSize
  · have hitems : (b.offer handle).1.items = b.items ++ [handle] := by
      simp only [BoundedStore.offer, dif_pos hroom]
    have hkept : (b.offer handle).2 = [] := by
      simp only [BoundedStore.offer, dif_pos hroom]
    have htake : (objects ++ [peripheral]).take peripheralListSize = objects ++ [peripheral] := by
      apply List.take_of_length_le
      rw [List.length_append, List.length_singleton, ← h.length_eq]
      omega
    rw [htake, hkept]
    constructor
    · exact hrep
    · show d.heap.live ++ [(handle, peripheral)] = _
      rw [hitems, List.zip_append h.length_eq, h.live]
      rfl
    · rw [hitems, List.length_append, List.length_append, h.length_eq]
      rfl
    · rw [hitems, List.nodup_append]
      refine ⟨h.nodup, List.nodup_singleton _, ?_⟩
      intro a ha a' ha' heq
      exact hnot (List.mem_singleton.mp ha' ▸ heq ▸ ha)
    · rw [hitems, List.mem_append, List.mem_singleton]
      rintro (hzero | hzero)
      · exact h.ne_null hzero
      · exact hne hzero.symm
    · exact h.dangling
  · have hfull : b.items.length = peripheralListSize := by
      have := b.length_le
      omega
    have htake : (objects ++ [peripheral]).take peripheralListSize = objects := by
      apply List.take_left'
      rw [← h.length_eq, hfull]
    have hrep' := hrep
    rw [BoundedStore.offer_of_full b handle hfull] at hrep'
    rw [htake, BoundedStore.offer_of_full b handle hfull, List.foldl_cons, List.foldl_nil,
      HandleHeap.release_wrap hne hfresh]
    exact { h with represents := hrep' }

theorem receive (h : d.Holds b objects) (hstr : StringsGiven library) (e : ScanEntry Address) :
    ∃ c, (d.receive library allocator adapter e).Holds c
      ((objects ++ (foundIn (devices [e])).map Prod.snd).take peripheralListSize) := by
  have hsame : (objects ++ []).take peripheralListSize = objects := by
    rw [List.append_nil]
    apply List.take_of_length_le
    rw [← h.length_eq]
    exact b.length_le
  cases e with
  | cleared late => exact ⟨b, hsame.symm ▸ h⟩
  | started =>
    have hquiet := reportAdapter_wp library .startedScanning adapter h.represents
    exact ⟨b, hsame.symm ▸ h.settle_quiet hquiet.2.1 hquiet.2.2⟩
  | stopped =>
    have hquiet := reportAdapter_wp library .stoppedScanning adapter h.represents
    exact ⟨b, hsame.symm ▸ h.settle_quiet hquiet.2.1 hquiet.2.2⟩
  | device report =>
    obtain ⟨isFound, address, peripheral⟩ := report
    cases isFound with
    | false => exact ⟨b, hsame.symm ▸ h⟩
    | true => exact h.found allocator adapter hstr peripheral

theorem take_take_append {α : Type} (n : ℕ) (l l' : List α) :
    (l.take n ++ l').take n = (l ++ l').take n := by
  have hrest : n - min n l.length = n - l.length := by omega
  rw [List.take_append, List.take_append, List.take_take, Nat.min_self, List.length_take, hrest]

/-- The first ten found objects stay, whatever comes after them. -/
theorem receiveAll (h : d.Holds b objects) (hstr : StringsGiven library)
    (log : List (ScanEntry Address)) :
    ∃ c, (d.receiveAll library allocator adapter log).Holds c
      ((objects ++ (foundIn (devices log)).map Prod.snd).take peripheralListSize) := by
  -- entry by entry
  induction log generalizing d b objects with
  | nil =>
    refine ⟨b, ?_⟩
    have hle : objects.length ≤ peripheralListSize := h.length_eq ▸ b.length_le
    show d.Holds b ((objects ++ []).take peripheralListSize)
    rw [List.append_nil, List.take_of_length_le hle]
    exact h
  | cons e log ih =>
    obtain ⟨c, hc⟩ := h.receive allocator adapter hstr e
    obtain ⟨c', hc'⟩ := ih hc
    refine ⟨c', ?_⟩
    have hobjects : (((objects ++ (foundIn (devices [e])).map Prod.snd).take peripheralListSize) ++
        (foundIn (devices log)).map Prod.snd).take peripheralListSize =
        (objects ++ (foundIn (devices (e :: log))).map Prod.snd).take peripheralListSize := by
      rw [show e :: log = [e] ++ log from rfl, devices_append, foundIn_append, List.map_append,
        ← List.append_assoc, take_take_append]
    rw [← hobjects]
    exact hc'

/-- The exit handler deletes what is live, each handle once. -/
theorem exit (h : d.Holds b objects) : (d.exit library).heap = HandleHeap.empty := by
  obtain ⟨-, -, hreleased⟩ := cleanOnExit_wp library h.represents
  have hfst := h.handles
  rw [HandleHeap.handles] at hfst
  rw [Client.exit, d.settle_eq hreleased]
  show b.items.foldl HandleHeap.release ⟨d.heap.live, d.heap.dangling⟩ = _
  rw [← hfst, h.dangling]
  apply HandleHeap.releaseAll_live
  · rw [hfst]
    exact h.nodup
  · rw [hfst]
    exact h.ne_null

end Client.Holds

theorem Client.holds_empty {w : BleWorld} (hempty : w.peripheralListLen = 0) :
    (Client.mk w HandleHeap.empty).Holds (BoundedStore.empty Handle peripheralListSize) [] where
  represents := ⟨hempty, fun i _ hi => absurd hi (Nat.not_lt_zero i)⟩
  live := rfl
  length_eq := rfl
  nodup := List.nodup_nil
  ne_null := List.not_mem_nil
  dangling := rfl

/-- `new` above all that is live. -/
def bumpAllocator : Allocator where
  next _ used := used.foldr max 0 + 1
  next_ne_null _ _ := Nat.succ_ne_zero _
  next_fresh _ used hmem := by
    have hle : ∀ l : List Handle, ∀ h ∈ l, h ≤ l.foldr max 0 := by
      intro l
      induction l with
      | nil => simp
      | cons a l ih =>
        intro h hh
        rcases List.mem_cons.mp hh with heq | hmem
        · rw [heq]
          exact Nat.le_max_left _ _
        · exact (ih h hmem).trans (Nat.le_max_right _ _)
    exact Nat.not_succ_le_self _ (hle used _ hmem)

section Delivered
variable {Address : Type} (library : Library) (allocator : Allocator) (adapter : Handle)

/-- Whatever is reported, `peripheral_list` holds one live handle for each of the first
ten found objects, in order, and no other handle is live; wherever `new` puts the
handles, none is deleted twice, and the exit handler deletes them all. -/
theorem handles_wrap_found (hstr : StringsGiven library) {w : BleWorld}
    (hempty : w.peripheralListLen = 0) (log : List (ScanEntry Address)) :
    let d := Client.receiveAll library allocator adapter log ⟨w, HandleHeap.empty⟩
    d.heap.live = d.world.saved.zip
        (((foundIn (devices log)).map Prod.snd).take peripheralListSize) ∧
      d.world.saved.length = min (foundIn (devices log)).length peripheralListSize ∧
      d.world.saved.Nodup ∧ d.heap.dangling = [] ∧
      (d.exit library).heap = HandleHeap.empty := by
  intro d
  obtain ⟨b, h⟩ := (Client.holds_empty hempty).receiveAll allocator adapter hstr log
  rw [List.nil_append] at h
  have hsaved : d.world.saved = b.items := h.represents.saved_eq
  refine ⟨?_, ?_, ?_, h.dangling, h.exit⟩
  · rw [hsaved]
    exact h.live
  · rw [hsaved, h.length_eq, List.length_take, List.length_map, Nat.min_comm]
  · rw [hsaved]
    exact h.nodup

theorem handles_wrap_strayed :
    let d := Client.receiveAll headsetRoom.library bumpAllocator 7 strayed.log
      ⟨.initial, HandleHeap.empty⟩
    d.heap.live = d.world.saved.zip
        (((foundIn (devices strayed.log)).map Prod.snd).take peripheralListSize) ∧
      d.world.saved.length = min (foundIn (devices strayed.log)).length peripheralListSize ∧
      d.world.saved.Nodup ∧ d.heap.dangling = [] ∧
      (d.exit headsetRoom.library).heap = HandleHeap.empty :=
  handles_wrap_found headsetRoom.library bumpAllocator 7 headsetRoom.stringsGiven rfl strayed.log

variable [LinearOrder Address]

end Delivered

end RCControl
