import Mathlib
import OpenVino.Base.StdAlgorithm

/-!
# `MemorySolver`

`mkldnn_memory_solver.cpp`: the constructor renumbers the time stamps so that each one starts a box, then
`solve` places the boxes in order of size, lifting each one over the boxes of its time slots.

Time stamps, sizes and offsets are `Int`s, without the bounds of `int` and `int64_t`; only the narrowing
of an id to the `int` that `getOffset` takes is modelled. A pointer to a box is the box: a box is pushed
into the time slots when its `id`, by then the offset, has its last value.
-/

namespace OpenVino.MKLDNNPlugin

structure Box where
  start : Int
  finish : Int
  size : Int
  id : Int
deriving DecidableEq

/-- `_offsets` has the last assignment of a key in front. -/
structure MemorySolver where
  boxes : List Box
  offsets : List (Int × Int) := []
  topDepth : Int := -1
  depth : Int := -1
  timeDuration : Int := -1

/-! ### The constructor -/

def maxTs (boxes : List Box) : Int :=
  boxes.foldl (fun max_ts box => max (max max_ts box.start) box.finish) 0

/-- `-1` stands for the last time stamp. -/
def Box.close (max_ts : Int) (box : Box) : Box :=
  if box.finish = -1 then { box with finish := max_ts } else box

def Box.startsBefore (l r : Box) : Bool :=
  l.start < r.start ∨ (l.start = r.start ∧ l.finish < r.finish)

/-- `ts_exist[ts]`; the constructor reads it for `0 ≤ ts ≤ max_ts` only. -/
def tsExist (boxes : List Box) (ts : Int) : Bool := boxes.any (·.start = ts)

/-- `n` passes of `if (!ts_exist[ts++]) rm_ts++`, on `(ts, rm_ts)`. -/
def skipUnused (ts_exist : Int → Bool) : Nat → Int × Int → Int × Int
  | 0, c => c
  | n + 1, (ts, rm_ts) => skipUnused ts_exist n (ts + 1, if ts_exist ts then rm_ts else rm_ts + 1)

/-- The running counters of the renumbering loop. -/
structure Renumbering where
  ts_s : Int := 0
  rm_ts_s : Int := 0
  ts_f : Int := 0
  rm_ts_f : Int := 0

/-- One pass of the renumbering loop. -/
def renumberBox (ts_exist : Int → Bool) (c : Renumbering) (b : Box) : Renumbering × Box :=
  let (ts_s, rm_ts_s) := skipUnused ts_exist (b.start - c.ts_s).toNat (c.ts_s, c.rm_ts_s)
  let (ts_f, rm_ts_f) := if c.ts_f > b.finish + 1 then (ts_s, rm_ts_s) else (c.ts_f, c.rm_ts_f)
  let (ts_f, rm_ts_f) := skipUnused ts_exist (b.finish + 1 - ts_f).toNat (ts_f, rm_ts_f)
  (⟨ts_s, rm_ts_s, ts_f, rm_ts_f⟩, { b with start := b.start - rm_ts_s, finish := b.finish - rm_ts_f })

def renumber (ts_exist : Int → Bool) : Renumbering → List Box → Renumbering × List Box
  | c, [] => (c, [])
  | c, b :: boxes =>
    let (c, b) := renumberBox ts_exist c b
    let (c, boxes) := renumber ts_exist c boxes
    (c, b :: boxes)

namespace MemorySolver

/-- `MemorySolver::MemorySolver` -/
def ofBoxes (std : StdSort Box) (boxes : List Box) : MemorySolver :=
  let max_ts := maxTs boxes
  let boxes := boxes.map (Box.close max_ts)
  let boxes := std.sort Box.startsBefore boxes
  let (c, boxes) := renumber (tsExist boxes) {} boxes
  { boxes, timeDuration := c.ts_f - c.rm_ts_f }

end MemorySolver

/-! ### Depth -/

/-- The variables of `calcDepth`, and the members `_top_depth` and `_depth` that it raises. `release_at`
lists its entries in the order of the `push_back`s. -/
structure DepthCount where
  top_depth : Int := 0
  depth : Int := 0
  release_at : List (Int × Box) := []
  maxTopDepth : Int
  maxDepth : Int

/-- One pass of the loop of `calcDepth`. -/
def countBox (s : DepthCount) (box : Box) : Result DepthCount := do
  let time := box.start
  let release_at := s.release_at ++ [(box.finish + 1, box)]
  let released := (release_at.filter (·.1 = time)).map (·.2)
  let depth := released.foldl (fun depth b => depth - b.size) (s.depth + box.size)
  let top_depth := released.foldl (fun top_depth _ => top_depth - 1) (s.top_depth + 1)
  let release_at := release_at.filter (·.1 ≠ time)
  ieAssert "top_depth > 0" (top_depth > 0)
  pure ⟨top_depth, depth, release_at, max s.maxTopDepth top_depth, max s.maxDepth depth⟩

namespace MemorySolver

def calcDepth (ms : MemorySolver) : Result MemorySolver := do
  let s ← ms.boxes.foldlM countBox { maxTopDepth := ms.topDepth, maxDepth := ms.depth }
  pure { ms with topDepth := s.maxTopDepth, depth := s.maxDepth }

def maxDepth (ms : MemorySolver) : Result (Int × MemorySolver) := do
  let ms ← if ms.depth = -1 then ms.calcDepth else pure ms
  pure (ms.depth, ms)

def maxTopDepth (ms : MemorySolver) : Result (Int × MemorySolver) := do
  let ms ← if ms.topDepth = -1 then ms.calcDepth else pure ms
  pure (ms.topDepth, ms)

end MemorySolver

/-! ### Placement -/

def Box.sizeBefore (l r : Box) : Bool := l.size > r.size

def popupTogetherWith (box_new box_old : Box) : Box × Bool :=
  if box_new.id + box_new.size > box_old.id ∧ box_old.id + box_old.size > box_new.id then
    ({ box_new with id := box_old.id + box_old.size }, true)
  else (box_new, false)

/-- The values of `i_slot` in `for (int i_slot = box.start; i_slot <= box.finish; i_slot++)`. -/
def Box.slots (box : Box) : List Int :=
  (List.range (box.finish + 1 - box.start).toNat).map fun k : Nat => box.start + k

/-- `time_slots[i_slot]` -/
def slotAt (time_slots : List (List Box)) (i_slot : Int) : Result (List Box) :=
  if 0 ≤ i_slot then
    match time_slots[i_slot.toNat]? with
    | some slot => .ok slot
    | none => .error (.undefinedBehaviour "time_slots[i_slot]")
  else .error (.undefinedBehaviour "time_slots[i_slot]")

/-- The loop over the boxes of one slot, on `box` and `popped_up`. -/
def liftInSlot (s : Box × Bool) (slot : List Box) : Box × Bool :=
  slot.foldl (fun s box_in_slot =>
    let (box, popped) := popupTogetherWith s.1 box_in_slot
    (box, s.2 || popped)) s

/-- The body of the `do … while (popped_up)` loop. -/
def liftOnce (time_slots : List (List Box)) (box : Box) : Result (Box × Bool) :=
  box.slots.foldlM (fun s i_slot => do
    let slot ← slotAt time_slots i_slot
    pure (liftInSlot s slot)) (box, false)

/-- The `do … while (popped_up)` loop. -/
def lift (time_slots : List (List Box)) : Nat → Box → Result Box
  | 0, _ => .error .outOfFuel
  | passes + 1, box => do
    let (box, popped_up) ← liftOnce time_slots box
    if popped_up then lift time_slots passes box else pure box

def addToSlots (time_slots : List (List Box)) (box : Box) : Result (List (List Box)) :=
  box.slots.foldlM (fun time_slots i_slot => do
    let slot ← slotAt time_slots i_slot
    pure (time_slots.set i_slot.toNat (slot ++ [box]))) time_slots

/-- The variables of `solve`; `boxes` is the part of `_boxes` that the loop has passed. -/
structure Placement where
  boxes : List Box := []
  time_slots : List (List Box)
  min_required : Int := 0
  offsets : List (Int × Int)

/-- One pass of the loop of `solve`. Each pass of the lifting loop but the last leaves one more of the
placed boxes below the new one, so `s.boxes.length + 1` passes are enough (`lift_ok`). -/
def placeBox (s : Placement) (box : Box) : Result Placement := do
  let id := box.id
  let box ← lift s.time_slots (s.boxes.length + 1) { box with id := 0 }
  let time_slots ← addToSlots s.time_slots box
  pure ⟨s.boxes ++ [box], time_slots, max s.min_required (box.id + box.size), (id, box.id) :: s.offsets⟩

namespace MemorySolver

def solve (std : StdSort Box) (ms : MemorySolver) : Result (Int × MemorySolver) := do
  let (_, ms) ← ms.maxTopDepth
  let time_slots := List.replicate ms.timeDuration.toNat []
  let boxes := std.sort Box.sizeBefore ms.boxes
  let s ← boxes.foldlM placeBox { time_slots, offsets := ms.offsets }
  pure (s.min_required, { ms with boxes := s.boxes, offsets := s.offsets })

/-- `getOffset(int id)`: an argument of a wider type is narrowed to `int` first. -/
def getOffset (ms : MemorySolver) (id : Int) : Result Int :=
  match ms.offsets.lookup (id.bmod (2 ^ 32)) with
  | some offset => .ok offset
  | none => throwException "There are no box for provided ID"

end MemorySolver

end OpenVino.MKLDNNPlugin
