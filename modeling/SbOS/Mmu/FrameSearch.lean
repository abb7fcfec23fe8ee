import SbOS.Lib.RunSearch
import SbOS.Mmu.Frames

/-! The search for several frames in a row. `get_free_frames` passes over a full
word without setting its counter back, so the run it finds is one of the frames it
looked at and need not be one of the bitmap. -/
namespace SbOS.Mmu.Frames
open RunSearch List
variable {f f' : Frames} {n i frame : Nat} {free : Nat → Bool}

/-- The frames a search looks at: those of the words that are not full. -/
def scannedFrom : List (BitVec 32) → Nat → List Nat
  | [], _ => []
  | word :: rest, i =>
    if word = 0xFFFFFFFF#32 then scannedFrom rest (i + 1)
    else (List.range 32).map (i * 32 + ·) ++ scannedFrom rest (i + 1)

def scanned (f : Frames) : List Nat :=
  scannedFrom (f.words.drop f.startFrameSearch) f.startFrameSearch

/-- The calls of `write_to_frame` with which
`mmu_allocate_kernel_linear_virtual_to_physical_mapping` claims `n` frames; it
asserts that each of them returns 1. -/
def claimInTurn : (n frame : Nat) → Frames → Bool
  | 0, _, _ => true
  | n + 1, frame, f =>
    let (claimed, f) := f.writeToFrame (frame * 0x1000) true
    claimed && claimInTurn n (frame + 1) f

/-- Where the search returns a frame, the `n` frames from there on are in the bitmap
and not in use, and can all be claimed. -/
def SoundSearch (f : Frames) (n : Nat) : Prop :=
  ∀ frame f', f.getFreeFrames n = (some frame, f') →
    (∀ k < n, f.Tracked (frame + k) ∧ f.used (frame + k) = false) ∧
      claimInTurn n frame f' = true

/-- The first `n` frames in a row that are not in use, among those the search looks
at, are in a row in the bitmap too. -/
def FirstRunTogether (f : Frames) (n : Nat) : Prop :=
  ∀ j first last, FirstRunEnds (fun frame => !f.used frame) f.scanned n j →
    f.scanned[j - (n - 1)]? = some first → f.scanned[j]? = some last → last = first + (n - 1)

/-! ### The search as a pass over the frames it looks at -/

/-- The frame returned when the run ends at `last`. -/
def runStart (n last : Nat) : Nat := uintptr (last + 2 ^ 32 - uintptr (n + 2 ^ 32 - 1))

theorem searchBits_scan (more : List Nat) (start : Nat)
    (bits : ∀ c < 32, free (i * 32 + c) = !word.getLsbD c) (size : n < 2 ^ 32)
    (wanted : 1 ≤ counter) (most : counter ≤ n) (within : left ≤ 32) :
    (∃ last start', searchBits word i n left counter start = ((some (runStart n last), 0), start') ∧
      scan free n ((range' (32 - left) left).map (i * 32 + ·) ++ more) counter = some last) ∨
    (∃ counter' start', 1 ≤ counter' ∧ counter' ≤ n ∧
      searchBits word i n left counter start = ((none, counter'), start') ∧
      scan free n ((range' (32 - left) left).map (i * 32 + ·) ++ more) counter =
        scan free n more counter') := by
  induction left generalizing counter start with
  | zero => exact .inr ⟨counter, start, wanted, most, rfl, rfl⟩
  | succ left ih =>
    have bit := bits (32 - (left + 1)) (by omega)
    have next : 32 - (left + 1) + 1 = 32 - left := by omega
    have one_less : uintptr (counter + 2 ^ 32 - 1) = counter - 1 := by
      unfold uintptr
      omega
    unfold searchBits
    rw [range'_succ, map_cons, cons_append, scan, bit, next]
    cases set : word.getLsbD (32 - (left + 1)) with
    | true =>
      simp only [set, if_true, Bool.not_true, Bool.false_eq_true, if_false]
      exact ih start (show 1 ≤ n by omega) le_rfl (by omega)
    | false =>
      simp only [set, Bool.false_eq_true, if_false, Bool.not_false, if_true, one_less]
      by_cases done : counter - 1 = 0
      · rw [if_pos done, if_pos done]
        exact .inl ⟨_, _, rfl, rfl⟩
      · rw [if_neg done, if_neg done]
        exact ih (min start i) (show 1 ≤ counter - 1 by omega) (by omega) (by omega)

theorem searchWords_scan (rest : List (BitVec 32))
    (bits : ∀ m word, rest[m]? = some word → ∀ c < 32,
      free ((i + m) * 32 + c) = !word.getLsbD c)
    (size : n < 2 ^ 32) (wanted : 1 ≤ counter) (most : counter ≤ n) :
    (searchWords n rest i counter start).1 =
      (scan free n (scannedFrom rest i) counter).map (runStart n) := by
  induction rest generalizing i counter start with
  | nil => rfl
  | cons word rest ih =>
    have others : ∀ m other, rest[m]? = some other → ∀ c < 32,
        free ((i + 1 + m) * 32 + c) = !other.getLsbD c := by
      intro m other at_m
      rw [show i + 1 + m = i + (m + 1) by omega]
      exact bits (m + 1) other (by simpa using at_m)
    unfold searchWords scannedFrom
    by_cases full : word = 0xFFFFFFFF#32
    · rw [if_pos full, if_pos full]
      exact ih others wanted most
    · have here : ∀ c < 32, free (i * 32 + c) = !word.getLsbD c := bits 0 word rfl
      rw [if_neg full, if_neg full, range_eq_range']
      rcases searchBits_scan (scannedFrom rest (i + 1)) start here size wanted most
          le_rfl with
        ⟨last, start', found, scanned⟩ | ⟨counter', start', low, high, found, scanned⟩
      · rw [found, scanned]
        rfl
      · rw [found, scanned]
        exact ih others low high

theorem used_of_word (at_row : f.words[row]? = some word) (column : c < 32) :
    f.used (row * 32 + c) = word.getLsbD c := by
  unfold used
  rw [Bitmap.test_getElem? (by rw [show (row * 32 + c) / 32 = row by omega]; exact at_row),
    show (row * 32 + c) % 32 = c by omega]

theorem getFreeFrames_scan (f : Frames) (positive : 1 ≤ n) (size : n < 2 ^ 32) :
    (f.getFreeFrames n).1 =
      (scan (fun frame => !f.used frame) n f.scanned n).map (runStart n) := by
  refine searchWords_scan _ (fun m word at_m c column => ?_) size positive le_rfl
  rw [List.getElem?_drop] at at_m
  rw [used_of_word at_m column]

/-! ### Which frames these are -/

theorem mem_scannedFrom : frame ∈ scannedFrom rest i ↔
    ∃ m word, rest[m]? = some word ∧ word ≠ 0xFFFFFFFF#32 ∧ frame / 32 = i + m := by
  induction rest generalizing i with
  | nil => simp [scannedFrom]
  | cons word rest ih =>
    have later : frame ∈ scannedFrom rest (i + 1) ↔ ∃ m other, (word :: rest)[m + 1]? = some other ∧
        other ≠ 0xFFFFFFFF#32 ∧ frame / 32 = i + (m + 1) := by
      simp only [ih, List.getElem?_cons_succ, show ∀ m, i + 1 + m = i + (m + 1) by omega]
    have first : frame ∈ (range 32).map (i * 32 + ·) ↔ frame / 32 = i := by
      simp only [mem_map, mem_range]
      exact ⟨fun ⟨c, column, same⟩ => by omega, fun row => ⟨frame % 32, by omega, by omega⟩⟩
    unfold scannedFrom
    constructor
    · intro member
      split at member
      · obtain ⟨m, found⟩ := later.mp member
        exact ⟨m + 1, found⟩
      · rename_i partly
        rcases mem_append.mp member with here | there
        · exact ⟨0, word, rfl, partly, first.mp here⟩
        · obtain ⟨m, found⟩ := later.mp there
          exact ⟨m + 1, found⟩
    · rintro ⟨m, other, at_m, partly, row⟩
      cases m with
      | zero =>
        cases at_m
        rw [if_neg partly]
        exact mem_append_left _ (first.mpr row)
      | succ m =>
        have there := later.mpr ⟨m, other, at_m, partly, row⟩
        split
        · exact there
        · exact mem_append_right _ there

theorem scannedFrom_sorted (rest : List (BitVec 32)) (i : Nat) :
    (scannedFrom rest i).Pairwise (· < ·) := by
  induction rest generalizing i with
  | nil => exact .nil
  | cons word rest ih =>
    unfold scannedFrom
    split
    · exact ih (i + 1)
    · refine pairwise_append.mpr ⟨?_, ih (i + 1), fun a here b there => ?_⟩
      · exact pairwise_map.mpr (pairwise_lt_range.imp fun less => by omega)
      · obtain ⟨c, column, rfl⟩ := mem_map.mp here
        obtain ⟨m, -, -, -, row⟩ := mem_scannedFrom.mp there
        have := mem_range.mp column
        omega

theorem scanned_tracked (member : frame ∈ f.scanned) :
    f.Tracked frame ∧ f.startFrameSearch ≤ frame / 32 := by
  obtain ⟨m, word, at_m, -, row⟩ := mem_scannedFrom.mp member
  rw [List.getElem?_drop] at at_m
  have inside := (List.getElem?_eq_some_iff.mp at_m).1
  exact ⟨by unfold Tracked; omega, by omega⟩

/-- The search looks at every frame that is not in use. -/
theorem mem_scanned (tracked : f.Tracked frame) (unused : f.used frame = false)
    (reached : f.startFrameSearch ≤ frame / 32) : frame ∈ f.scanned := by
  have at_row := List.getElem?_eq_getElem tracked
  refine mem_scannedFrom.mpr ⟨frame / 32 - f.startFrameSearch, f.words[frame / 32], ?_, ?_, by omega⟩
  · rw [List.getElem?_drop, ← at_row]
    congr 1
    omega
  · intro full
    have bit := used_of_word at_row (show frame % 32 < 32 by omega)
    rw [show frame / 32 * 32 + frame % 32 = frame by omega, unused, full] at bit
    exact absurd bit.symm ((show ∀ c < 32, (0xFFFFFFFF#32).getLsbD c ≠ false by decide) _
      (Nat.mod_lt _ (by decide)))

/-! ### Soundness -/

theorem claimInTurn_unused (n frame : Nat)
    (unused : ∀ k < n, f.Tracked (frame + k) ∧ f.used (frame + k) = false) :
    claimInTurn n frame f = true := by
  induction n generalizing frame f with
  | zero => rfl
  | succ n ih =>
    obtain ⟨tracked, clear⟩ := unused 0 (Nat.succ_pos n)
    obtain ⟨f', claimed, length, -, bits⟩ := writeToFrame_on tracked clear
    rw [add_zero] at claimed bits
    unfold claimInTurn
    rw [claimed]
    refine ih (frame + 1) fun k below => ?_
    obtain ⟨tracked, clear⟩ := unused (k + 1) (Nat.succ_lt_succ below)
    rw [show frame + 1 + k = frame + (k + 1) by omega]
    refine ⟨by unfold Tracked; rw [length]; exact tracked, ?_⟩
    rw [bits, clear]
    simp

theorem getFreeFrames_words (f : Frames) (n : Nat) : (f.getFreeFrames n).2.words = f.words := rfl

/-- The frames up to the end of the first run are not in use exactly when the run is
one of the bitmap. -/
theorem run_unused_iff (positive : 1 ≤ n) (ends : RunEnds (fun frame => !f.used frame) f.scanned n j)
    (at_first : f.scanned[j - (n - 1)]? = some first) (at_last : f.scanned[j]? = some last) :
    (∀ k < n, f.Tracked (last - (n - 1) + k) ∧ f.used (last - (n - 1) + k) = false) ↔
      last = first + (n - 1) := by
  have sorted : f.scanned.Pairwise (· < ·) := scannedFrom_sorted _ _
  have within : n - 1 ≤ j := (ends (n - 1) (by omega)).1
  have apart := gap sorted (show j - (n - 1) ≤ j by omega) at_first at_last
  have reached := (scanned_tracked (mem_of_getElem? at_first)).2
  rw [in_a_row_iff sorted positive within at_first at_last]
  constructor
  · intro unused k below
    obtain ⟨tracked, clear⟩ := unused (n - 1 - k) (by omega)
    rw [show last - (n - 1) + (n - 1 - k) = last - k by omega] at tracked clear
    exact ⟨by omega, mem_scanned tracked clear (by omega)⟩
  · intro members k below
    have row := consecutive sorted at_last members (n - 1 - k) (by omega)
    obtain ⟨-, frame, at_frame, clear⟩ := ends (n - 1 - k) (by omega)
    cases row.symm.trans at_frame
    rw [show last - (n - 1 - k) = last - (n - 1) + k by omega] at row clear
    exact ⟨(scanned_tracked (mem_of_getElem? row)).1, by simpa using clear⟩

/-- The search is sound exactly where no full word lies within the first run it
finds. A physical address has 32 bits, so there are at most 2^15 words. -/
theorem sound_search_iff_first_run_together (f : Frames) (n : Nat) (positive : 1 ≤ n)
    (size : n < 2 ^ 32) (small : f.words.length ≤ 2 ^ 15) :
    f.SoundSearch n ↔ f.FirstRunTogether n := by
  have searched := getFreeFrames_scan f positive size
  rcases @scan_spec _ (fun frame => !f.used frame) n positive f.scanned with
    ⟨j, last, ends, at_last, found⟩ | ⟨nowhere, found⟩
  · have sorted : f.scanned.Pairwise (· < ·) := scannedFrom_sorted _ _
    obtain ⟨within, first, at_first, -⟩ := ends.1 (n - 1) (by omega)
    have apart := gap sorted (show j - (n - 1) ≤ j by omega) at_first at_last
    have tracked := (scanned_tracked (mem_of_getElem? at_last)).1
    have start : runStart n last = last - (n - 1) := by
      unfold runStart uintptr
      omega
    rw [found, Option.map_some, start] at searched
    have run := run_unused_iff positive ends.1 at_first at_last
    constructor
    · intro sound j' first' last' ends' at_first' at_last'
      have same : j' = j := by
        rcases Nat.lt_trichotomy j' j with before | same | after
        · exact absurd ends'.1 (ends.2 j' before)
        · exact same
        · exact absurd ends.1 (ends'.2 j after)
      subst same
      cases at_first.symm.trans at_first'
      cases at_last.symm.trans at_last'
      exact run.mp (sound _ _ (Prod.ext searched rfl)).1
    · intro together frame f' returned
      have frameIs := searched.symm.trans (congrArg Prod.fst returned)
      cases frameIs
      have unused := run.mpr (together j first last ends at_first at_last)
      have words : f'.words = f.words := by
        rw [← getFreeFrames_words f n, returned]
      refine ⟨unused, claimInTurn_unused _ _ fun k below => ?_⟩
      unfold Tracked used
      rw [words]
      exact unused k below
  · rw [found] at searched
    constructor
    · intro _ j _ _ ends
      exact absurd ends.1 (nowhere j)
    · intro _ frame f' returned
      rw [returned] at searched
      cases searched

/-- Two frames in one word. -/
theorem sound_search_two : SoundSearch ⟨[0, 0xFFFFFFFC#32], 1, 0⟩ 2 := by
  refine (sound_search_iff_first_run_together _ 2 (by decide) (by decide) (by decide)).mpr ?_
  intro j first last ends at_first at_last
  have one : RunEnds (fun frame => !used ⟨[0, 0xFFFFFFFC#32], 1, 0⟩ frame)
      (scanned ⟨[0, 0xFFFFFFFC#32], 1, 0⟩) 2 1
    | 0, _ => ⟨by decide, 33, rfl, rfl⟩
    | 1, _ => ⟨by decide, 32, rfl, rfl⟩
  have least : 1 ≤ j := (ends.1 1 (by decide)).1
  obtain rfl : j = 1 := by
    by_contra other
    exact ends.2 1 (by omega) one
  cases at_first
  cases at_last
  rfl

/-- The last frame of word 1 and the first of word 3 are taken for two frames in a
row, though word 2 between them is full: frame 95, which is in use, is to be the first. -/
theorem search_spans_full_word :
    getFreeFrames ⟨[0, 0x7FFFFFFF#32, 0xFFFFFFFF#32, 0xFFFFFFFE#32], 1, 0⟩ 2 =
        (some 95, ⟨[0, 0x7FFFFFFF#32, 0xFFFFFFFF#32, 0xFFFFFFFE#32], 1, 0⟩) ∧
      used ⟨[0, 0x7FFFFFFF#32, 0xFFFFFFFF#32, 0xFFFFFFFE#32], 1, 0⟩ 95 = true ∧
      claimInTurn 2 95 ⟨[0, 0x7FFFFFFF#32, 0xFFFFFFFF#32, 0xFFFFFFFE#32], 1, 0⟩ = false ∧
      ¬ SoundSearch ⟨[0, 0x7FFFFFFF#32, 0xFFFFFFFF#32, 0xFFFFFFFE#32], 1, 0⟩ 2 := by
  have found : getFreeFrames ⟨[0, 0x7FFFFFFF#32, 0xFFFFFFFF#32, 0xFFFFFFFE#32], 1, 0⟩ 2 =
      (some 95, ⟨[0, 0x7FFFFFFF#32, 0xFFFFFFFF#32, 0xFFFFFFFE#32], 1, 0⟩) := by decide +kernel
  refine ⟨found, by decide, by decide, fun sound => ?_⟩
  exact absurd (sound _ _ found).2 (by decide)

/-! ### Frames that are held -/

/-- A request for one frame, or the release of one of the frames that are held. -/
def requestOrRelease (s : Frames × List Nat) : Option Nat → Frames × List Nat
  | none =>
    match s.1.getFreeFrames 1 with
    | (none, f) => (f, s.2)
    | (some frame, f) => ((f.writeToFrame (frame * 0x1000) true).2, frame :: s.2)
  | some frame =>
    if frame ∈ s.2 then ((s.1.writeToFrame (frame * 0x1000) false).2, s.2.erase frame) else s

/-- No frame is held twice, and those that are held are marked. -/
structure Apart (s : Frames × List Nat) : Prop where
  small : s.1.words.length ≤ 2 ^ 15
  nodup : s.2.Nodup
  used : ∀ frame ∈ s.2, s.1.used frame = true

theorem Apart.step (apart : Apart s) (call : Option Nat) : Apart (requestOrRelease s call) := by
  obtain ⟨small, nodup, used⟩ := apart
  unfold requestOrRelease
  cases call with
  | none =>
    rcases claim_one small with ⟨frame, f', found, wrote, -, claims⟩ | ⟨nothing, -⟩
    · have new : frame ∉ s.2 := fun held => by simpa [claims.clear] using used frame held
      simp only [found, wrote]
      exact ⟨claims.length ▸ small, nodup_cons.mpr ⟨new, nodup⟩, forall_mem_cons.mpr
        ⟨claims.own, fun other held => claims.grows (used other held)⟩⟩
    · simp only [nothing]
      exact ⟨small, nodup, used⟩
  | some frame =>
    obtain ⟨length, others⟩ := writeToFrame_off s.1 frame
    dsimp only
    split
    · refine ⟨length ▸ small, nodup.erase frame, fun other held => ?_⟩
      obtain ⟨apart, held⟩ := nodup.mem_erase_iff.mp held
      rw [others other apart]
      exact used other held
    · exact ⟨small, nodup, used⟩

/-- In every run of requests and releases, no frame is handed out while it is held. -/
theorem held_frames_apart (small : f.words.length ≤ 2 ^ 15) (calls : List (Option Nat)) :
    Apart (calls.foldl requestOrRelease (f, [])) :=
  foldlRecOn calls requestOrRelease ⟨small, nodup_nil, nofun⟩ fun _ apart call _ => apart.step call

theorem held_frames_apart_three :
    ([none, none, some 32, none].foldl requestOrRelease (⟨[0, 0], 1, 0⟩, [])).2 = [32, 33] ∧
      Apart ([none, none, some 32, none].foldl requestOrRelease (⟨[0, 0], 1, 0⟩, [])) :=
  ⟨by decide, held_frames_apart (by decide) _⟩

end SbOS.Mmu.Frames
