import CyborgdbEmbed.EnsureFileEndings
import CyborgdbEmbed.LoadSession
import CyborgdbEmbed.Loops

set_option autoImplicit false

namespace CyborgdbEmbed.Sha256File
open FileSystem Resolve EnsureFile LoadSession Loops TransitionSystem

structure ReadBuffer where
  bytes : Bytes
  size : bytes.length = bufferSize

def ReadBuffer.zeros : ReadBuffer := ⟨List.replicate bufferSize 0, List.length_replicate⟩

def ReadBuffer.fill (buffer : ReadBuffer) (got : Bytes) (fits : got.length ≤ bufferSize) :
    ReadBuffer where
  bytes := got ++ buffer.bytes.drop got.length
  size := by
    rw [List.length_append, List.length_drop, buffer.size]
    omega

/-- `std::ifstream`: what is left of the file, whether a read has failed, and `gcount`. -/
structure IStream where
  rest : Bytes
  fail : Bool := false
  gcount : ℕ := 0

/-- `in.read(buffer.data(), buffer.size())`. -/
def IStream.read (stream : IStream) (buffer : ReadBuffer) : IStream × ReadBuffer :=
  if stream.fail then ({ stream with gcount := 0 }, buffer)
  else
    let got := stream.rest.take bufferSize
    ({ rest := stream.rest.drop bufferSize
       fail := got.length != bufferSize
       gcount := got.length },
      buffer.fill got (List.length_take_le _ _))

/-- `EVP_MD_CTX`: the updates so far. -/
structure Context where
  updates : List Bytes

def Context.update (context : Context) (data : Bytes) : Context :=
  ⟨context.updates ++ [data]⟩

def Context.final (sha256 : Hash) (context : Context) : Bytes :=
  sha256.bytes context.updates.flatten

structure Hashing where
  stream : IStream
  buffer : ReadBuffer
  context : Context

/-- `while (in.read(...) || in.gcount() > 0)` and its body. -/
def turn (s : Hashing) : Hashing ⊕ Context :=
  let (stream, buffer) := s.stream.read s.buffer
  if !stream.fail || 0 < stream.gcount then
    .inl ⟨stream, buffer, s.context.update (buffer.bytes.take stream.gcount)⟩
  else .inr s.context

/-- `file` is none where it cannot be opened. -/
def sha256File (sha256 : Hash) (fuel : ℕ) (path : String) (file : Option Bytes)
    (digest : String) : Option (Status × String) :=
  match file with
  | none => some (⟨.downloadFailed, "cannot read " ++ path⟩, digest)
  | some bytes =>
    (whileLoop turn fuel ⟨⟨bytes, false, 0⟩, .zeros, ⟨[]⟩⟩).map fun context =>
      ({}, hexDigest (context.final sha256))

def lowercaseHex (raw : Bytes) : String :=
  String.ofList (raw.flatMap fun b => [Nat.digitChar (b.toNat / 16), Nat.digitChar (b.toNat % 16)])

structure CutInto (file : Bytes) (chunks : List Bytes) : Prop where
  whole : chunks.flatten = file
  nonempty : ∀ chunk ∈ chunks, chunk ≠ []
  small : ∀ chunk ∈ chunks, chunk.length ≤ bufferSize

/-- As many turns as there are full buffers in the file, and two more. -/
def turns (file : Bytes) : ℕ := file.length / bufferSize + 2

structure HashesWhole (sha256 : Hash) (path : String) (file : Bytes) : Prop where
  fed : ∀ fuel, turns file ≤ fuel → ∃ context,
    whileLoop turn fuel ⟨⟨file, false, 0⟩, .zeros, ⟨[]⟩⟩ = some context ∧
      CutInto file context.updates
  returns : ∀ fuel digest, turns file ≤ fuel → sha256File sha256 fuel path (some file) digest =
    some ({}, lowercaseHex (sha256.bytes file))
  length : (lowercaseHex (sha256.bytes file)).length = 64
  digits : ∀ c ∈ (lowercaseHex (sha256.bytes file)).toList, c ∈ kHex

theorem fill_take (buffer : ReadBuffer) (got : Bytes) (fits : got.length ≤ bufferSize) :
    (buffer.fill got fits).bytes.take got.length = got := List.take_left

/-- The chunks and what is left to read are the file, and a failed stream has nothing left. -/
structure Reading (file : Bytes) (s : Hashing) : Prop where
  parts : s.context.updates.flatten ++ s.stream.rest = file
  nonempty : ∀ chunk ∈ s.context.updates, chunk ≠ []
  small : ∀ chunk ∈ s.context.updates, chunk.length ≤ bufferSize
  spent : s.stream.fail = true → s.stream.rest = []

def rank (s : Hashing) : ℕ :=
  if s.stream.fail then 0 else s.stream.rest.length / bufferSize + 1

variable {file : Bytes} {s next : Hashing} {context : Context}

theorem turn_failed (h : s.stream.fail = true) : turn s = .inr s.context := by
  unfold turn IStream.read
  rw [if_pos h]
  dsimp only
  rw [h]
  rfl

theorem read_good {stream : IStream} (h : stream.fail = false) (buffer : ReadBuffer) :
    stream.read buffer =
      (⟨stream.rest.drop bufferSize, (stream.rest.take bufferSize).length != bufferSize,
          (stream.rest.take bufferSize).length⟩,
        buffer.fill (stream.rest.take bufferSize) (List.length_take_le _ _)) :=
  if_neg (by rw [h]; nofun)

theorem goes_on (n : ℕ) : (!(n != bufferSize) || decide (0 < n)) = decide (0 < n) := by
  by_cases full : n = bufferSize
  · rw [full]
    rfl
  · rw [bne_iff_ne.mpr full]
    rfl

theorem turn_good (h : s.stream.fail = false) : turn s =
    if 0 < (s.stream.rest.take bufferSize).length then
      .inl ⟨⟨s.stream.rest.drop bufferSize,
          (s.stream.rest.take bufferSize).length != bufferSize,
          (s.stream.rest.take bufferSize).length⟩,
        s.buffer.fill (s.stream.rest.take bufferSize) (List.length_take_le _ _),
        s.context.update (s.stream.rest.take bufferSize)⟩
    else .inr s.context := by
  unfold turn
  rw [read_good h]
  dsimp only
  rw [goes_on, fill_take]
  simp only [decide_eq_true_eq]

theorem turn_inl (h : turn s = .inl next) : s.stream.fail = false ∧ s.stream.rest ≠ [] ∧
    next.context = s.context.update (s.stream.rest.take bufferSize) ∧
    next.stream.rest = s.stream.rest.drop bufferSize ∧
    next.stream.fail = ((s.stream.rest.take bufferSize).length != bufferSize) := by
  cases good : s.stream.fail with
  | true =>
    rw [turn_failed good] at h
    cases h
  | false =>
    rw [turn_good good] at h
    split at h
    · rename_i got
      obtain rfl := Sum.inl.inj h
      refine ⟨rfl, ?_, rfl, rfl, rfl⟩
      intro empty
      rw [empty] at got
      exact absurd got (Nat.lt_irrefl 0)
    · cases h

theorem turn_inr (spent : s.stream.fail = true → s.stream.rest = [])
    (h : turn s = .inr context) : s.stream.rest = [] ∧ context = s.context := by
  cases good : s.stream.fail with
  | true =>
    rw [turn_failed good] at h
    exact ⟨spent good, (Sum.inr.inj h).symm⟩
  | false =>
    rw [turn_good good] at h
    split at h
    · cases h
    · rename_i nothing
      refine ⟨?_, (Sum.inr.inj h).symm⟩
      rw [List.length_take, Nat.lt_min] at nothing
      have none : s.stream.rest.length = 0 := by
        by_contra some
        exact nothing ⟨by decide, by omega⟩
      exact List.length_eq_zero_iff.mp none

theorem Reading.turn (reading : Reading file s) (h : turn s = .inl next) : Reading file next := by
  obtain ⟨good, more, hcontext, hrest, hfail⟩ := turn_inl h
  have chunk : s.stream.rest.take bufferSize ≠ [] := by
    intro empty
    cases List.take_eq_nil_iff.mp empty with
    | inl zero => exact absurd zero (by decide)
    | inr nothing => exact more nothing
  have updates : next.context.updates = s.context.updates ++ [s.stream.rest.take bufferSize] := by
    rw [hcontext]
    rfl
  refine ⟨?_, ?_, ?_, ?_⟩
  · rw [updates, hrest, List.flatten_append, List.flatten_singleton, List.append_assoc,
      List.take_append_drop]
    exact reading.parts
  · rw [updates, List.forall_mem_append, List.forall_mem_singleton]
    exact ⟨reading.nonempty, chunk⟩
  · rw [updates, List.forall_mem_append, List.forall_mem_singleton]
    exact ⟨reading.small, List.length_take_le _ _⟩
  · intro short
    rw [hfail, bne_iff_ne, List.length_take] at short
    rw [hrest]
    exact List.drop_eq_nil_of_le (by omega)

theorem rank_turn (h : turn s = .inl next) : rank next < rank s := by
  obtain ⟨good, -, -, hrest, hfail⟩ := turn_inl h
  have before : rank s = s.stream.rest.length / bufferSize + 1 := by
    unfold rank
    rw [good]
    rfl
  rw [before]
  unfold rank
  rw [hfail, hrest]
  split
  · exact Nat.succ_pos _
  · rename_i full
    rw [bne_iff_ne, not_not, List.length_take] at full
    have whole : bufferSize ≤ s.stream.rest.length := by omega
    rw [List.length_drop, Nat.div_eq_sub_div (by decide) whole]
    exact Nat.lt_succ_self _

theorem loop_ends (file : Bytes) {fuel : ℕ} (enough : turns file ≤ fuel) : ∃ context,
    whileLoop turn fuel ⟨⟨file, false, 0⟩, .zeros, ⟨[]⟩⟩ = some context ∧
      CutInto file context.updates := by
  apply whileLoop_ends (I := Reading file) rank
  · exact fun s next reading h => ⟨reading.turn h, rank_turn h⟩
  · intro s context reading h
    obtain ⟨nothing, rfl⟩ := turn_inr reading.spent h
    have parts := reading.parts
    rw [nothing, List.append_nil] at parts
    exact ⟨parts, reading.nonempty, reading.small⟩
  · exact ⟨rfl, fun _ h => absurd h List.not_mem_nil, fun _ h => absurd h List.not_mem_nil, nofun⟩
  · exact enough

theorem hexDigit_eq {v : ℕ} (h : v < 16) : hexDigit v = Nat.digitChar v := by
  have all : ∀ v < 16, hexDigit v = Nat.digitChar v := by decide
  exact all v h

theorem hexDigest_eq (raw : Bytes) : hexDigest raw = lowercaseHex raw := by
  unfold hexDigest lowercaseHex
  congr 2
  funext b
  have high : (b >>> 4).toNat = b.toNat / 16 := by
    rw [UInt8.toNat_shiftRight]
    exact Nat.shiftRight_eq_div_pow b.toNat 4
  have low : (b &&& 0x0f).toNat = b.toNat % 16 := by
    rw [UInt8.toNat_and]
    exact Nat.and_two_pow_sub_one_eq_mod b.toNat 4
  have small := b.toNat_lt
  rw [high, low, hexDigit_eq (by omega), hexDigit_eq (by omega)]

theorem hexDigest_length (raw : Bytes) : (hexDigest raw).length = 2 * raw.length := by
  unfold hexDigest
  rw [String.length_ofList, List.length_flatMap]
  simp [Nat.mul_comm]

theorem hexDigest_digits (raw : Bytes) : ∀ c ∈ (hexDigest raw).toList, c ∈ kHex := by
  unfold hexDigest
  rw [String.toList_ofList]
  intro c hc
  obtain ⟨b, -, hb⟩ := List.mem_flatMap.mp hc
  rw [List.mem_cons, List.mem_singleton] at hb
  obtain rfl | rfl := hb
  · exact List.get_mem _ _
  · exact List.get_mem _ _

theorem sha256File_ends (sha256 : Hash) (path : String) (file : Bytes) (digest : String)
    {fuel : ℕ} (enough : turns file ≤ fuel) : sha256File sha256 fuel path (some file) digest =
      some ({}, hexDigest (sha256.bytes file)) := by
  obtain ⟨context, ends, cut⟩ := loop_ends file enough
  unfold sha256File
  dsimp only
  rw [ends, Option.map_some]
  unfold Context.final
  rw [cut.whole]

/-- Every file is hashed from its first byte to its last. -/
theorem sha256File_hashesWhole (sha256 : Hash) (path : String) (file : Bytes) :
    HashesWhole sha256 path file where
  fed _ enough := loop_ends file enough
  returns fuel digest enough := by
    rw [← hexDigest_eq]
    exact sha256File_ends sha256 path file digest enough
  length := by
    rw [← hexDigest_eq, hexDigest_length]
    have long : (sha256.bytes file).length = 32 := (sha256 file).2
    rw [long]
  digits := by
    rw [← hexDigest_eq]
    exact hexDigest_digits _

section
variable {sha256 : Hash} {req : FileRequest} {suffix : Suffix} {d : Disk} {inode : ℕ}

theorem hashing_step (hashed rest : Bytes) (h : d.content inode = hashed ++ rest) :
    callStep sha256.bytes req (d, .hashing suffix inode hashed) .readIn =
      some (d, afterRead sha256.bytes suffix inode hashed (rest.take bufferSize)) := by
  change some (d, afterRead sha256.bytes suffix inode hashed (chunkAt d inode hashed.length)) = _
  unfold chunkAt
  rw [h, List.drop_left]

theorem hashing_run {n : ℕ} {rest hashed : Bytes} (count : rest.length / bufferSize = n)
    (h : d.content inode = hashed ++ rest) :
    Run (callStep sha256.bytes req) (d, .hashing suffix inode hashed)
      (List.replicate (n + 1) .readIn)
      (d, .comparing suffix (hexDigest (sha256.bytes (d.content inode)))) := by
  have size : 0 < bufferSize := by decide
  induction n generalizing rest hashed with
  | zero =>
    have few : rest.length < bufferSize := (Nat.div_eq_zero_iff_lt size).mp count
    have short : (rest.take bufferSize).length ≠ bufferSize := by
      rw [List.length_take]
      omega
    refine .next (hashing_step hashed rest h) ?_
    unfold afterRead
    rw [if_neg short, List.take_of_length_le (Nat.le_of_lt few), ← h]
    exact .refl _
  | succ n ih =>
    have whole : bufferSize ≤ rest.length := by
      by_contra few
      rw [Nat.div_eq_of_lt (Nat.lt_of_not_le few)] at count
      omega
    have full : (rest.take bufferSize).length = bufferSize := List.length_take_of_le whole
    refine .next (hashing_step hashed rest h) ?_
    unfold afterRead
    rw [if_pos full]
    have later : d.content inode =
        (hashed ++ rest.take bufferSize) ++ rest.drop bufferSize := by
      rw [h, List.append_assoc, List.take_append_drop]
    refine ih ?_ later
    rw [Nat.div_eq_sub_div size whole] at count
    rw [List.length_drop]
    exact Nat.succ.inj count

theorem fetched_run (h : d.node (part req suffix) = some (.file inode)) (digest : String)
    {fuel : ℕ} (enough : turns (d.content inode) ≤ fuel) : ∃ events text,
      Run (callStep sha256.bytes req) (d, .fetched suffix) events (d, .comparing suffix text) ∧
        sha256File sha256 fuel (req.partPath suffix) (d.read (part req suffix)) digest =
          some ({}, text) := by
  have opened : callStep sha256.bytes req (d, .fetched suffix) .openIn =
      some (d, .hashing suffix inode []) := by
    change advance sha256.bytes req d (.fetched suffix) .openIn = _
    unfold advance
    dsimp only
    rw [h]
  refine ⟨_, _, .next opened (hashing_run rfl (List.nil_append _).symm), ?_⟩
  rw [Disk.read_file h]
  exact sha256File_ends sha256 _ _ digest enough

end

end CyborgdbEmbed.Sha256File
