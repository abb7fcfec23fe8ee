import SbOS.Crypto.Chacha
import SbOS.Kernel.Stop
import SbOS.Lib.Epochs
import SbOS.Lib.ForwardCopy

/-! The random generator (`random.c`): a ChaCha20 block whose counter word numbers the blocks,
new keys from the stream itself and from a pool of hashed entropy, and a fast generator that is
seeded from the stream. The hash functions of the pool are parameters. -/
namespace SbOS.Crypto
open Kernel Bytes

/-! ## The stream -/

/-- `internal_chacha_block`, with the inputs that `chacha_block` has had and the stores into the
words of the key or the nonce. -/
structure Stream where
  block : Block
  history : List (Use Block)

namespace Stream

/-- The block of a kernel that starts. -/
def boot : Stream :=
  ⟨#v[0x61707865, 0x3320646e, 0x79622d32, 0x6b206574, 0, 0, 0, 0, 0, 0, 0, 0, 0, 0, 0, 0], []⟩

/-- `internal_chacha_block[COUNT]++` -/
def advance (stream : Stream) : Stream :=
  { stream with block := stream.block.setCount (stream.block.count + 1) }

/-- `chacha_block` on the current block, and the counter after it. -/
def apply (stream : Stream) : Bytes × Stream :=
  (stream.block.chachaBlock.bytes,
    { stream with history := .use stream.block :: stream.history }.advance)

/-- `memcpy` over words of the key or the nonce. -/
def store (stream : Stream) (pos count : Nat) (data : Bytes) : Stream :=
  ⟨stream.block.store pos count data, .cut :: stream.history⟩

/-- The check of the counter in `get_random` against `COUNT_MAX - 1`; `mix` is what the call of
`mix_chacha` does. -/
def renew (mix : Stream → Except Stop Stream) (stream : Stream) : Except Stop Stream :=
  if stream.block.count = 0xFFFFFFFE then mix stream.advance else .ok stream

/-- The loop of `get_random`. -/
def fill (mix : Stream → Except Stop Stream) (len : Nat) (stream : Stream) :
    Except Stop (List UInt8 × Stream) :=
  if len = 0 then .ok ([], stream)
  else do
    let stream ← stream.renew mix
    let readLen := if 64 < len then 64 else len
    let (data, stream) := stream.apply
    let (rest, stream) ← fill mix (len - readLen) stream
    return (firstBytes data readLen ++ rest, stream)
termination_by len
decreasing_by split <;> omega

/-- `mix_chacha` on top of a `get_random`. -/
def mixWith (random : Nat → Stream → Except Stop (List UInt8 × Stream)) (stream : Stream) :
    Except Stop Stream := do
  let (data, stream) ← random 64 stream
  let stream := stream.store 4 8 fun i => data.getD i 0
  let stream := stream.store 13 2 fun i => data.getD (32 + i) 0
  return { stream with block := stream.block.setCount 0 }

/-- `get_random` with at most `depth` calls of it inside each other. -/
def getRandom : (depth len : Nat) → Stream → Except Stop (List UInt8 × Stream)
  | 0, _, _ => .error .diverged
  | depth + 1, len, stream => fill (mixWith (getRandom depth)) len stream

/-- `mix_chacha` -/
def mixChacha (depth : Nat) : Stream → Except Stop Stream := mixWith (getRandom depth)

end Stream

/-! ## The generator -/

/-- The words of a byte string as `u64`. -/
def le64 (b : Bytes) (o : Nat) : Nat := le32 b o + 2 ^ 32 * le32 b (o + 4)

/-- The state `s` of the fast generator. -/
abbrev Xoshiro := Vector UInt64 4

namespace Xoshiro

/-- `seed_xoshiro_256_pp` with the bytes of its four words. -/
def seed (data : Bytes) : Xoshiro := .ofFn fun i => UInt64.ofNat (le64 data (8 * i))

def rotl (x k : UInt64) : UInt64 := (x <<< k) ||| (x >>> (64 - k))

/-- `xoshiro_256_pp` -/
def next (s : Xoshiro) : UInt64 × Xoshiro :=
  let result := rotl (s[0] + s[3]) 23 + s[0]
  let t := s[1] <<< 17
  let s := s.set 2 (s[2] ^^^ s[0])
  let s := s.set 3 (s[3] ^^^ s[1])
  let s := s.set 1 (s[1] ^^^ s[2])
  let s := s.set 0 (s[0] ^^^ s[3])
  let s := s.set 2 (s[2] ^^^ t)
  (result, s.set 3 (rotl s[3] 45))

/-- Bytes from the generator: the first `width` of each of `count` results. -/
def take (width : Nat) : Nat → Xoshiro → List UInt8 × Xoshiro
  | 0, s => ([], s)
  | count + 1, s =>
    let (result, s) := s.next
    let (rest, s) := take width count s
    (firstBytes (encode result.toNat) width ++ rest, s)

end Xoshiro

open List hiding after

/-- The hash functions of the pool. -/
structure HashFunctions (Ctx : Type) where
  init : Ctx → Ctx
  update : Ctx → Bytes → Nat → Ctx
  final : Ctx → Bytes × Ctx

structure Generator (Ctx : Type) where
  stream : Stream
  hashPool : Ctx
  hashPoolSize : Nat
  entropyFastState : UInt64
  fast : Xoshiro
  isFastRandomSeeded : Bool

namespace Generator

variable (hash : HashFunctions Ctx)

/-- The generator of a kernel that starts: the pool is what `setup_random` makes of the memory
it finds. -/
def setupRandom (memory : Ctx) : Generator Ctx :=
  ⟨.boot, hash.init memory, 0, 0, .ofFn fun _ => 0, false⟩

def getRandom (depth len : Nat) (g : Generator Ctx) : Except Stop (List UInt8 × Generator Ctx) := do
  let (data, stream) ← g.stream.getRandom depth len
  return (data, { g with stream })

/-- `get_random` of a seed and `seed_xoshiro_256_pp` -/
def reseed (depth : Nat) (g : Generator Ctx) : Except Stop (Generator Ctx) := do
  let (seed, g) ← g.getRandom depth 32
  return { g with fast := .seed fun i => seed.getD i 0 }

/-- `get_fast_insecure_random` -/
def getFastInsecureRandom (depth len : Nat) (g : Generator Ctx) :
    Except Stop (List UInt8 × Generator Ctx) := do
  let g ← if g.isFastRandomSeeded then pure g else do
    let g ← g.reseed depth
    pure { g with isFastRandomSeeded := true }
  let (words, fast) := g.fast.take 8 (len / 8)
  let (bytes, fast) := fast.take 1 (len % 8)
  return (words ++ bytes, { g with fast })

/-- The loop over `hash_buffer`. `KEY_SIZE` is `8 * sizeof(u32)` without brackets, so that
`i % KEY_SIZE` is `i % 8 * 4`. -/
def mixKey (key hashBuffer : Bytes) : Bytes :=
  (List.range 20).foldl (fun key i =>
    Function.update key (i % 8 * 4) (key (i % 8 * 4) ^^^ hashBuffer i)) key

/-- `add_hash_pool` -/
def addHashPool (depth : Nat) (g : Generator Ctx) : Except Stop (Generator Ctx) := do
  let (key, g) ← g.getRandom depth 32
  let (hashBuffer, hashPool) := hash.final g.hashPool
  let key := mixKey (fun i => key.getD i 0) hashBuffer
  let hashPool := hash.update (hash.init hashPool) hashBuffer 20
  let (block, g) ← g.getRandom depth 64
  let hashPool := hash.update hashPool (fun i => block.getD i 0) 64
  let stream ← (g.stream.store 4 8 key).mixChacha depth
  reseed depth { g with stream, hashPool }

/-- `xorshift64` -/
def xorshift64 (x : UInt64) : UInt64 :=
  let x := x ^^^ (x <<< 13)
  let x := x ^^^ (x >>> 7)
  x ^^^ (x <<< 17)

/-- `random_add_entropy` -/
def randomAddEntropy (depth : Nat) (g : Generator Ctx) (buffer : Bytes) (size : Nat) :
    Except Stop (Generator Ctx) :=
  let hashPool := hash.update g.hashPool (encode g.entropyFastState.toNat) 8
  let g := { g with
    entropyFastState := xorshift64 g.entropyFastState
    hashPool := hash.update hashPool buffer size
    hashPoolSize := (g.hashPoolSize + size) % 2 ^ 32 }
  if 40 ≤ g.hashPoolSize then g.addHashPool hash depth else .ok g

end Generator

/-! ## Runs -/

inductive RandomCall where
  | getRandom (len : UInt64)
  | getFastInsecureRandom (len : UInt64)
  | randomAddEntropy (buffer : Bytes) (size : UInt64)
  | addHashPool

/-- One call, with `get_random` at most `depth` times inside itself. -/
def Generator.step (hash : HashFunctions Ctx) (depth : Nat) (g : Generator Ctx) :
    RandomCall → Except Stop (Generator Ctx)
  | .getRandom len => do
    let (_, g) ← g.getRandom depth len.toNat
    return g
  | .getFastInsecureRandom len => do
    let (_, g) ← g.getFastInsecureRandom depth len.toNat
    return g
  | .randomAddEntropy buffer size => g.randomAddEntropy hash depth buffer size.toNat
  | .addHashPool => g.addHashPool hash depth

def Generator.run (hash : HashFunctions Ctx) (depth : Nat) (g : Generator Ctx) :
    List RandomCall → Except Stop (Generator Ctx)
  | [] => .ok g
  | call :: rest => do
    let g ← g.step hash depth call
    g.run hash depth rest

/-! ## Between two new keys the counter grows -/

namespace Stream

variable {stream : Stream}

/-- Every input since the last new key has a counter below the current one. -/
structure Ordered (stream : Stream) : Prop where
  fresh : Use.Fresh stream.history
  above : ∀ input ∈ Use.epoch stream.history, input.count.toNat < stream.block.count.toNat

/-- What holds between the calls: the counter can still be advanced. -/
structure Rested (stream : Stream) : Prop extends Ordered stream where
  limit : stream.block.count.toNat < 2 ^ 32 - 1

theorem count_advance (room : stream.block.count.toNat < 2 ^ 32 - 1) :
    stream.advance.block.count.toNat = stream.block.count.toNat + 1 := by
  unfold advance
  rw [Block.count_setCount, UInt32.toNat_add]
  exact Nat.mod_eq_of_lt (by have one : (1 : UInt32).toNat = 1 := rfl; omega)

section
variable (ordered : Ordered stream)
include ordered

theorem Ordered.advance (room : stream.block.count.toNat < 2 ^ 32 - 1) :
    Ordered stream.advance where
  fresh := ordered.fresh
  above input used := by
    rw [count_advance room]
    exact (ordered.above input used).trans (Nat.lt_succ_self _)

/-- An input with a counter above all others is a new one. -/
theorem Ordered.fresh_apply : Use.Fresh stream.apply.2.history :=
  ⟨fun used => Nat.lt_irrefl _ (ordered.above _ used), ordered.fresh⟩

theorem Ordered.apply (room : stream.block.count.toNat < 2 ^ 32 - 1) : Ordered stream.apply.2 where
  fresh := ordered.fresh_apply
  above input used := by
    rw [show stream.apply.2.block.count.toNat = stream.block.count.toNat + 1 from
      count_advance room]
    rcases mem_cons.mp used with rfl | earlier
    · exact Nat.lt_succ_self _
    · exact (ordered.above input earlier).trans (Nat.lt_succ_self _)

end

/-- After a new key every input is a new one. -/
theorem ordered_of_cut (cut : stream.history = .cut :: past) (fresh : Use.Fresh past) :
    Ordered stream where
  fresh := by
    rw [cut]
    exact fresh
  above input used := by
    rw [cut] at used
    exact (not_mem_nil used).elim

theorem fill_zero (mix : Stream → Except Stop Stream) (stream : Stream) :
    fill mix 0 stream = .ok ([], stream) := by
  unfold fill
  rw [if_pos rfl]

/-- One round of the loop, once the counter is below its limit. -/
theorem fill_next (some : len ≠ 0) (reached : stream.renew mix = .ok ready)
    (rest : fill mix (len - if 64 < len then 64 else len) ready.apply.2 = .ok (data, after)) :
    ∃ filled, fill mix len stream = .ok (filled, after) := by
  unfold fill
  rw [if_neg some, reached]
  simp only [ok_then]
  rw [rest]
  exact ⟨_, rfl⟩

/-- New keys come with a new counter. -/
theorem mixWith_rested (returned : random 64 stream = .ok (data, after))
    (fresh : Use.Fresh after.history) :
    ∃ mixed, mixWith random stream = .ok mixed ∧ Rested mixed ∧ mixed.block.count = 0 := by
  unfold mixWith
  rw [returned]
  refine ⟨_, rfl, ⟨ordered_of_cut rfl (show Use.Fresh (.cut :: after.history) from fresh), ?_⟩, ?_⟩
  · rw [Block.count_setCount]
    decide
  · exact Block.count_setCount ..

/-- At the limit, `mix_chacha` uses the last counter, which only it does. -/
theorem mixWith_limit (rested : Rested stream) (limit : stream.block.count = 0xFFFFFFFE) :
    ∃ mixed, mixWith (getRandom 1) stream.advance = .ok mixed ∧ Rested mixed ∧
      mixed.block.count = 0 := by
  have ordered := rested.advance rested.limit
  have last : stream.advance.block.count = 0xFFFFFFFF := by
    unfold advance
    rw [Block.count_setCount, limit]
    rfl
  have other : stream.advance.block.count ≠ 0xFFFFFFFE := by
    rw [last]
    decide
  obtain ⟨data, returned⟩ := fill_next (by decide : 64 ≠ 0) (if_neg other)
    (fill_zero (mixWith (getRandom 0)) stream.advance.apply.2)
  exact mixWith_rested returned ordered.fresh_apply

theorem fill_rested (mixed : ∀ stream : Stream, Rested stream → stream.block.count = 0xFFFFFFFE →
      ∃ after, mix stream.advance = .ok after ∧ Rested after ∧ after.block.count = 0)
    (rested : Rested stream) (len : Nat) :
    ∃ data after, fill mix len stream = .ok (data, after) ∧ Rested after := by
  induction len using Nat.strong_induction_on generalizing stream with
  | _ len ih =>
    by_cases none : len = 0
    · exact ⟨[], stream, none ▸ fill_zero mix stream, rested⟩
    · have less : len - (if 64 < len then 64 else len) < len := by split <;> omega
      -- the block that is applied has a counter two below the overflow
      have ready : ∃ ready : Stream, stream.renew mix = .ok ready ∧ Rested ready ∧
          ready.block.count.toNat < 2 ^ 32 - 2 := by
        by_cases limit : stream.block.count = 0xFFFFFFFE
        · obtain ⟨after, returned, still, zero⟩ := mixed stream rested limit
          refine ⟨after, (if_pos limit).trans returned, still, ?_⟩
          rw [zero]
          decide
        · refine ⟨stream, if_neg limit, rested, ?_⟩
          have below := rested.limit
          have apart : stream.block.count.toNat ≠ 2 ^ 32 - 2 := fun same =>
            limit (UInt32.toNat_inj.mp same)
          omega
      obtain ⟨ready, reached, still, below⟩ := ready
      have applied : Rested ready.apply.2 := by
        refine ⟨still.toOrdered.apply still.limit, ?_⟩
        rw [show ready.apply.2.block.count.toNat = ready.block.count.toNat + 1 from
          count_advance still.limit]
        omega
      obtain ⟨data, after, rest, end_⟩ := ih _ less applied
      obtain ⟨filled, returned⟩ := fill_next none reached rest
      exact ⟨filled, after, returned, end_⟩

/-- `get_random` calls itself at most once. -/
theorem Rested.getRandom (rested : Rested stream) (len : Nat) :
    ∃ data after, stream.getRandom 2 len = .ok (data, after) ∧ Rested after :=
  fill_rested (fun _ => mixWith_limit) rested len

theorem Rested.store_key (rested : Rested stream) (key : Bytes) : Rested (stream.store 4 8 key) := by
  refine ⟨ordered_of_cut rfl rested.fresh, ?_⟩
  rw [show (stream.store 4 8 key).block.count = stream.block.count from Block.count_store ..]
  exact rested.limit

theorem Rested.mixChacha (rested : Rested stream) :
    ∃ mixed, stream.mixChacha 2 = .ok mixed ∧ Rested mixed := by
  obtain ⟨data, after, returned, still⟩ := rested.getRandom 64
  obtain ⟨mixed, result, end_, _⟩ := mixWith_rested returned still.fresh
  exact ⟨mixed, result, end_⟩

end Stream

namespace Generator

variable {g : Generator Ctx} {hash : HashFunctions Ctx}

section
variable (rested : g.stream.Rested)
include rested

theorem getRandom_rested (len : Nat) :
    ∃ data stream, g.getRandom 2 len = .ok (data, { g with stream }) ∧ stream.Rested := by
  obtain ⟨data, stream, returned, still⟩ := rested.getRandom len
  refine ⟨data, stream, ?_, still⟩
  unfold getRandom
  rw [returned]
  rfl

theorem reseed_rested : ∃ after, g.reseed 2 = .ok after ∧ after.stream.Rested := by
  obtain ⟨seed, stream, returned, still⟩ := getRandom_rested rested 32
  unfold reseed
  rw [returned]
  exact ⟨_, rfl, still⟩

theorem getFastInsecureRandom_rested (len : Nat) :
    ∃ data after, g.getFastInsecureRandom 2 len = .ok (data, after) ∧ after.stream.Rested := by
  unfold getFastInsecureRandom
  by_cases seeded : g.isFastRandomSeeded = true
  · rw [if_pos seeded]
    exact ⟨_, _, rfl, rested⟩
  · obtain ⟨after, returned, still⟩ := reseed_rested rested
    rw [if_neg seeded, returned]
    exact ⟨_, _, rfl, still⟩

theorem addHashPool_rested : ∃ after, g.addHashPool hash 2 = .ok after ∧ after.stream.Rested := by
  obtain ⟨key, stream, returned, still⟩ := getRandom_rested rested 32
  unfold addHashPool
  rw [returned]
  simp only [ok_then]
  obtain ⟨block, stream', returned', still'⟩ := getRandom_rested (g := { g with stream }) still 64
  rw [returned']
  simp only [ok_then]
  obtain ⟨mixed, result, end_⟩ := (still'.store_key _).mixChacha
  rw [result]
  exact reseed_rested end_

end

theorem step_rested (hash : HashFunctions Ctx) (rested : g.stream.Rested) (call : RandomCall) :
    ∃ after, g.step hash 2 call = .ok after ∧ after.stream.Rested := by
  cases call with
  | getRandom len =>
    obtain ⟨data, stream, returned, still⟩ := getRandom_rested rested len.toNat
    unfold step
    dsimp only
    rw [returned]
    exact ⟨_, rfl, still⟩
  | getFastInsecureRandom len =>
    obtain ⟨data, after, returned, still⟩ := getFastInsecureRandom_rested rested len.toNat
    unfold step
    dsimp only
    rw [returned]
    exact ⟨_, rfl, still⟩
  | randomAddEntropy buffer size =>
    unfold step randomAddEntropy
    dsimp only
    split
    · exact addHashPool_rested rested
    · exact ⟨_, rfl, rested⟩
  | addHashPool => exact addHashPool_rested rested

theorem run_rested (rested : g.stream.Rested) (calls : List RandomCall) :
    ∃ after, g.run hash 2 calls = .ok after ∧ after.stream.Rested := by
  induction calls generalizing g with
  | nil => exact ⟨g, rfl, rested⟩
  | cons call rest ih =>
    obtain ⟨after, returned, still⟩ := step_rested hash rested call
    obtain ⟨final, result, end_⟩ := ih still
    refine ⟨final, ?_, end_⟩
    unfold run
    rw [returned]
    exact result

/-- In every run from the start of the kernel, two equal inputs of `chacha_block` have a new key
or nonce between them, and `get_random` never stands more than twice on the stack. -/
theorem inputs_separated (hash : HashFunctions Ctx) (memory : Ctx) (calls : List RandomCall) :
    ∃ after, (setupRandom hash memory).run hash 2 calls = .ok after ∧
      Use.Separated after.stream.history := by
  have rested : (setupRandom hash memory).stream.Rested :=
    ⟨⟨trivial, fun _ used => (not_mem_nil used).elim⟩,
      show Stream.boot.block.count.toNat < 2 ^ 32 - 1 by decide⟩
  obtain ⟨after, returned, still⟩ := run_rested rested calls
  exact ⟨after, returned, still.fresh.separated⟩

/-! ## What a digest contributes to the key -/

/-- The bytes of a digest whose numbers are `j` modulo 8, xored. -/
def folded (digest : Bytes) (j : Nat) : UInt8 :=
  ((List.range 20).filter (· % 8 = j)).foldr (digest · ^^^ ·) 0

theorem mixKey_apply (key digest : Bytes) (p : Nat) : mixKey key digest p =
    key p ^^^ ((range 20).filter (· % 8 * 4 = p)).foldr (digest · ^^^ ·) 0 := by
  unfold mixKey
  induction range 20 generalizing key with
  | nil => simp
  | cons i rest ih =>
    rw [foldl_cons, ih, filter_cons]
    by_cases here : i % 8 * 4 = p
    · simp [here, UInt8.xor_assoc]
    · simp [here, Function.update_of_ne (Ne.symm here)]

/-- Two digests give different keys in a state of the generator, whatever key comes out of the
stream there, exactly when they differ in a folded byte. -/
theorem new_keys_differ_iff (key digest digest' : Bytes) :
    (∃ p < 32, mixKey key digest p ≠ mixKey key digest' p) ↔
      ∃ j < 8, folded digest j ≠ folded digest' j := by
  have place (j : Nat) : (range 20).filter (· % 8 * 4 = 4 * j) =
      (range 20).filter (· % 8 = j) :=
    filter_congr fun i _ => by rw [decide_eq_decide]; omega
  simp only [mixKey_apply, ne_eq, UInt8.xor_right_inj]
  constructor
  · rintro ⟨p, bound, differ⟩
    by_cases word : p = 4 * (p / 4)
    · rw [word, place] at differ
      exact ⟨p / 4, by omega, differ⟩
    · have none : (range 20).filter (· % 8 * 4 = p) = [] :=
        filter_eq_nil_iff.mpr fun i _ => by rw [decide_eq_true_iff]; omega
      rw [none] at differ
      exact absurd rfl differ
  · rintro ⟨j, bound, differ⟩
    exact ⟨4 * j, by omega, by rwa [place]⟩

/-- A one in bytes 0 and 8 of a digest is cancelled in every state. -/
theorem digest_is_cancelled : ∃ digest digest' : Bytes, (∃ i < 20, digest i ≠ digest' i) ∧
    ∀ key, ∀ p < 32, mixKey key digest p = mixKey key digest' p := by
  refine ⟨fun i => if i = 0 ∨ i = 8 then 1 else 0, zeros, ⟨0, by decide, by decide⟩, ?_⟩
  intro key p bound
  rw [mixKey_apply, mixKey_apply]
  congr 1
  revert p
  decide

end Generator

end SbOS.Crypto
