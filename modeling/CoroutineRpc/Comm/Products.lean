import CoroutineRpc.Comm.ConfigFile
import CoroutineRpc.Coroutine.Memory
import CoroutineRpc.Library.Transition

/-! What is multiplied of an accepted `Config`.

`CoroutinePool` makes a `Memory` of as many blocks as there are coroutines, each as large as a stack,
and `TcpTimeWheel` a timer event of as many milliseconds as there are in its seconds. Both are `int`
products. Each factor is an `int` (`Loaded.factors`); the products are safe where they are `int`s too,
which nothing checks (`sound_iff`). -/
namespace CoroutineRpc

/-! ### A memory in use -/

namespace Coroutine.Memory
open Library.Transition

inductive Call where
  | getBlock
  | backBlock (s : Int)
deriving DecidableEq

/-- `getBlock` without a block returns `NULL` and changes nothing. -/
def step (m : Memory) : Call → Option Memory
  | .getBlock => some ((m.getBlock.map Prod.snd).getD m)
  | .backBlock s => some (m.backBlock s)

/-- Every block that `m` hands out, whatever was called before, is so many blocks from the start, an
`int` of bytes, and lies inside what `malloc` returned. -/
def HandsOutInside (m : Memory) : Prop :=
  ∀ (calls : List Call) (m' m'' : Memory) (s : Int), run step m calls = some m' →
    m'.getBlock = some (s, m'') → ∃ (t : Nat) (offset : Int), int (t * m.blockSize) = some offset ∧
      s = m.start + offset ∧ stack m.blockSize s ⊆ m.range

/-- The calls change bits only. -/
structure Same (m m' : Memory) : Prop where
  start : m'.start = m.start
  blockSize : m'.blockSize = m.blockSize
  length : m'.blocks.length = m.blocks.length

theorem same_step {m m' m'' : Memory} {call : Call} (h : Same m m')
    (hcall : step m' call = some m'') : Same m m'' := by
  cases call with
  | getBlock =>
    obtain rfl := Option.some.inj hcall
    cases hget : m'.getBlock with
    | none => exact h
    | some block =>
      obtain ⟨s, m''⟩ := block
      obtain ⟨t, -, -, rfl⟩ := getBlock_some hget
      exact ⟨h.start, h.blockSize, (List.length_set ..).trans h.length⟩
  | backBlock s =>
    obtain rfl := Option.some.inj hcall
    unfold backBlock
    split
    · exact h
    · exact ⟨h.start, h.blockSize, (List.length_set ..).trans h.length⟩

/-- **Blocks of a memory whose size is their product lie inside it.** -/
theorem handsOutInside {size : Int} {count : Nat} {m : Memory} (h : Of size count m) (hsize : 0 < size)
    (hfit : count * size < 2 ^ 31) : HandsOutInside m := by
  intro calls m' m'' s hcalls hget
  have hsame : Same m m' :=
    (always_of_inductive (fun _ _ _ hsame hcall => same_step hsame hcall) ⟨rfl, rfl, rfl⟩ calls).last hcalls
  obtain ⟨t, hfree, rfl, -⟩ := getBlock_some hget
  have hlt : t < count := by
    have := (List.getElem?_eq_some_iff.mp hfree).1
    rwa [hsame.length, h.length] at this
  have hblock : m'.block t = m.block t := by
    rw [block, block, hsame.start, hsame.blockSize]
  have hlow : 0 ≤ (t : Int) * size := Int.mul_nonneg (Int.natCast_nonneg t) (Int.le_of_lt hsize)
  have hhigh : (t : Int) * size ≤ count * size :=
    Int.mul_le_mul_of_nonneg_right (by omega) (Int.le_of_lt hsize)
  rw [hblock, h.blockSize]
  exact ⟨t, t * size, int_some (by omega), h.block_eq t, h.stack_subset hsize hlt⟩

end Coroutine.Memory

/-! ### Configured products -/

namespace Comm.Config
open Coroutine.Memory

/-- The first argument of the `TimerEvent` of `TcpTimeWheel`. -/
def wheelInterval (config : Config) : Option Int := int (config.timewheelInteval * 1000)

/-- The products are what they should be, and the blocks lie where they should. -/
structure Sound (config : Config) : Prop where
  memory : ∀ start, ∃ m, make config.corStackSize config.corPoolSize start = some m ∧
    m.size = config.corPoolSize * config.corStackSize ∧ m.start = start ∧ HandsOutInside m
  wheel : ∃ interval, config.wheelInterval = some interval ∧ interval = config.timewheelInteval * 1000 ∧
    0 < interval

/-- What `loadFromFile` checks of the factors. -/
theorem Loaded.factors {text : Bytes} {config : Config} (h : Loaded text config) :
    0 < config.corStackSize ∧ 0 < config.corPoolSize ∧ 0 < config.timewheelInteval := by
  have hstack := h.corStackSize.bounds (by decide)
  have hpool := h.corPoolSize.bounds (by decide)
  have hwheel := h.timewheelInteval.bounds (by decide)
  omega

/-- A product that is no `int` is undefined. -/
theorem Sound.fits {config : Config} (h : Sound config) :
    config.corPoolSize * config.corStackSize < 2 ^ 31 ∧ config.timewheelInteval * 1000 < 2 ^ 31 := by
  constructor
  · obtain ⟨m, hm, -⟩ := h.memory 0
    simp only [make, Option.bind_eq_bind, Option.bind_eq_some_iff] at hm
    obtain ⟨size, hsize, -⟩ := hm
    exact (eq_of_int hsize).2.2
  · obtain ⟨interval, hinterval, -⟩ := h.wheel
    exact (eq_of_int hinterval).2.2

/-- **Which accepted configurations are sound**: those whose products are `int`s. -/
theorem sound_iff {text : Bytes} {config : Config} (h : loadFromFile {} (some text) = (true, config)) :
    Sound config ↔ config.corPoolSize * config.corStackSize < 2 ^ 31 ∧
      config.timewheelInteval * 1000 < 2 ^ 31 := by
  refine ⟨Sound.fits, fun ⟨hmemory, hwheel⟩ => ?_⟩
  obtain ⟨hstack, hpool, hpositive⟩ := (loaded_of_true h).factors
  constructor
  · intro start
    have hcount : (config.corPoolSize.toNat : Int) = config.corPoolSize := Int.toNat_of_nonneg (by omega)
    have hfit : (config.corPoolSize.toNat : Int) * config.corStackSize < 2 ^ 31 := by rwa [hcount]
    obtain ⟨m, hm, hstart, hof, -⟩ := make_some start hstack hfit
    rw [hcount] at hm
    refine ⟨m, hm, ?_, hstart, handsOutInside hof hstack hfit⟩
    rw [hof.size, hcount]
  · exact ⟨_, int_some ⟨by omega, hwheel⟩, rfl, by omega⟩

/-- A file with a value for each factor. -/
def smallStacks : Bytes := ascii "cor_stack_size = 131072\ncor_pool_size=1000\n# seconds\ntimewheel_inteval = 5\n"

theorem sound_iff_smallStacks : ∃ config, loadFromFile {} (some smallStacks) = (true, config) ∧
    config.corStackSize = 131072 ∧ config.corPoolSize = 1000 ∧ config.timewheelInteval = 5 ∧ Sound config := by
  obtain ⟨haccepted, hstack, hpool, hwheel⟩ : (loadFromFile {} (some smallStacks)).1 = true ∧
      (loadFromFile {} (some smallStacks)).2.corStackSize = 131072 ∧
      (loadFromFile {} (some smallStacks)).2.corPoolSize = 1000 ∧
      (loadFromFile {} (some smallStacks)).2.timewheelInteval = 5 := by
    decide +kernel
  obtain ⟨config, hconfig⟩ : ∃ config, (loadFromFile {} (some smallStacks)).2 = config := ⟨_, rfl⟩
  rw [hconfig] at hstack hpool hwheel
  have h : loadFromFile {} (some smallStacks) = (true, config) := Prod.ext haccepted hconfig
  refine ⟨config, h, hstack, hpool, hwheel, (sound_iff h).mpr ?_⟩
  rw [hstack, hpool, hwheel]
  omega

/-- A file with two large values. -/
def largeStacks : Bytes := ascii "cor_stack_size = 1048576\ncor_pool_size = 2048\n"

/-- Both are accepted, and their product is 2^31. -/
theorem not_sound_largeStacks : ¬ ∀ (text : Bytes) (config : Config),
    loadFromFile {} (some text) = (true, config) → Sound config := fun h => by
  obtain ⟨haccepted, hstack, hpool⟩ : (loadFromFile {} (some largeStacks)).1 = true ∧
      (loadFromFile {} (some largeStacks)).2.corStackSize = 1048576 ∧
      (loadFromFile {} (some largeStacks)).2.corPoolSize = 2048 := by
    decide +kernel
  obtain ⟨config, hconfig⟩ : ∃ config, (loadFromFile {} (some largeStacks)).2 = config := ⟨_, rfl⟩
  rw [hconfig] at hstack hpool
  have hfits := (h largeStacks config (Prod.ext haccepted hconfig)).fits.1
  rw [hstack, hpool] at hfits
  omega

end Comm.Config

end CoroutineRpc
