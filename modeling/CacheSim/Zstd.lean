import CacheSim.Lib.Loop
import CacheSim.Lib.Text

/-!
# Compressed files (`traceReader/generalReader/zstdReader.c`)

The library is a parameter; what its manual promises is `Decoder.Contract`. `none` is a loop that has not
ended, or a program that has.
-/

namespace CacheSim.Zstd

open Lib List Option Nat

/-- What a call of `ZSTD_decompressStream` does: the output it appends, and how much input it takes. -/
structure Decompressed (σ : Type) where
  zds : σ
  out : Bytes
  taken : Nat
  is_error : Bool

/-- `ZSTD_DStream`, `ZSTD_createDStream` and `ZSTD_decompressStream`; the call gets the room in the output buffer and the
input that is left. -/
structure Decoder where
  State : Type
  ZSTD_createDStream : State
  ZSTD_decompressStream : State → Nat → Bytes → Decompressed State
  ZSTD_DStreamInSize : Nat
  ZSTD_DStreamOutSize : Nat

variable {d : Decoder}

/-- The states after calls without an error, with all that was taken and all that came out. -/
inductive Decoder.At (d : Decoder) : d.State → Bytes → Bytes → Prop
  | create : d.At d.ZSTD_createDStream [] []
  | step {s : d.State} {taken out : Bytes} (room : Nat) (input : Bytes) :
      d.At s taken out → (d.ZSTD_decompressStream s room input).is_error = false →
      d.At (d.ZSTD_decompressStream s room input).zds (taken ++ input.take (d.ZSTD_decompressStream s room input).taken)
        (out ++ (d.ZSTD_decompressStream s room input).out)

/-- The manual: input is taken and output appended within their sizes; what a decoder has not put out yet is in its own
buffers, and there is nothing in them when it leaves room in the output; a call with room and input does something. -/
structure Decoder.Contract (d : Decoder) (content : Bytes → Bytes) (pending : d.State → Bytes) : Prop where
  in_size : 0 < d.ZSTD_DStreamInSize
  taken_le : ∀ s room input, (d.ZSTD_decompressStream s room input).taken ≤ input.length
  out_le : ∀ s room input, (d.ZSTD_decompressStream s room input).out.length ≤ room
  mono : ∀ a b, content a <+: content (a ++ b)
  content_eq : ∀ s taken out, d.At s taken out → content taken = out ++ pending s
  flushed : ∀ s taken out room input, d.At s taken out → (d.ZSTD_decompressStream s room input).is_error = false →
    (d.ZSTD_decompressStream s room input).out.length < room → pending (d.ZSTD_decompressStream s room input).zds = []
  progress : ∀ s taken out room input, d.At s taken out → (d.ZSTD_decompressStream s room input).is_error = false → 0 < room →
    input ≠ [] → 0 < (d.ZSTD_decompressStream s room input).taken ∨ (d.ZSTD_decompressStream s room input).out ≠ []

/-! ## The reader -/

/-- `rstatus` -/
inductive Status where
  | ERR | OK | MY_EOF
deriving DecidableEq, Repr

/-- `zstd_reader_t`: what is left of the file and of `buff_in`, and `buff_out` up to `output.pos`. -/
structure ZstdReader (d : Decoder) where
  file : Bytes
  ifile : Bytes
  zds : d.State
  input : Bytes := []
  output : Bytes := []
  buff_out_read_pos : Nat := 0
  status : Status := .ERR

def create_zstd_reader (d : Decoder) (file : Bytes) : ZstdReader d where
  file := file
  ifile := file
  zds := d.ZSTD_createDStream

variable (r : ZstdReader d)

def reset_zstd_reader : ZstdReader d :=
  { r with
    zds := d.ZSTD_createDStream
    ifile := r.file
    input := []
    output := []
    buff_out_read_pos := 0
    status := .ERR }

def ZstdReader.buff_out_sz (_ : ZstdReader d) : Nat := d.ZSTD_DStreamOutSize * 2

/-- A plain file is read without an error, so less than was asked for is its end. -/
def _read_from_file : ZstdReader d :=
  let data := r.ifile.take d.ZSTD_DStreamInSize
  { r with
    ifile := r.ifile.drop d.ZSTD_DStreamInSize
    input := data
    status := if data.length < d.ZSTD_DStreamInSize then .MY_EOF else r.status }

/-- The unread output moves to the head of `buff_out`, and a `buff_in` that is used up is filled. -/
def prepare : ZstdReader d :=
  let r := { r with output := r.output.drop r.buff_out_read_pos, buff_out_read_pos := 0 }
  if r.input = [] then _read_from_file r else r

def _decompress_from_buff : ZstdReader d × Status :=
  let r := prepare r
  if r.input = [] then (r, .MY_EOF)
  else
    let ret := d.ZSTD_decompressStream r.zds (r.buff_out_sz - r.output.length) r.input
    ({ r with zds := ret.zds, output := r.output ++ ret.out, input := r.input.drop ret.taken }, .OK)

def zstd_reader_read_bytes (n_byte : Nat) : Nat → ZstdReader d → Option (ZstdReader d × Bytes)
  | fuel, r =>
    if r.buff_out_read_pos + n_byte > r.output.length then
      match fuel with
      | 0 => none
      | fuel + 1 =>
        match _decompress_from_buff r with
        | (_, .ERR) => none
        | (r, .MY_EOF) => some (r, [])
        | (r, .OK) => zstd_reader_read_bytes n_byte fuel r
    else some ({ r with buff_out_read_pos := r.buff_out_read_pos + n_byte }, (r.output.drop r.buff_out_read_pos).take n_byte)

def reads (fuel : Nat) : ZstdReader d → List Nat → Option (ZstdReader d × List Bytes)
  | r, [] => some (r, [])
  | r, n_byte :: sizes => do
    let (r, data) ← zstd_reader_read_bytes n_byte fuel r
    let (r, rest) ← reads fuel r sizes
    return (r, data :: rest)

theorem reset_eq_create (r : ZstdReader d) : reset_zstd_reader r = create_zstd_reader d r.file := rfl

/-! ## One call of the library -/

def ZstdReader.next_input : Bytes := if r.input = [] then r.ifile.take d.ZSTD_DStreamInSize else r.input

def ZstdReader.room : Nat := r.buff_out_sz - (r.output.drop r.buff_out_read_pos).length

@[simp] theorem prepare_input (r : ZstdReader d) : (prepare r).input = r.next_input := by
  unfold prepare ZstdReader.next_input
  dsimp only
  split_ifs <;> rfl

@[simp] theorem prepare_output (r : ZstdReader d) : (prepare r).output = r.output.drop r.buff_out_read_pos := by
  unfold prepare
  dsimp only
  split_ifs <;> rfl

@[simp] theorem prepare_pos (r : ZstdReader d) : (prepare r).buff_out_read_pos = 0 := by
  unfold prepare
  dsimp only
  split_ifs <;> rfl

@[simp] theorem prepare_zds (r : ZstdReader d) : (prepare r).zds = r.zds := by
  unfold prepare
  dsimp only
  split_ifs <;> rfl

@[simp] theorem prepare_file (r : ZstdReader d) : (prepare r).file = r.file := by
  unfold prepare
  dsimp only
  split_ifs <;> rfl

theorem prepare_bytes (r : ZstdReader d) : r.next_input ++ (prepare r).ifile = r.input ++ r.ifile := by
  unfold prepare ZstdReader.next_input
  dsimp only
  split_ifs with hinput
  · rw [hinput]
    exact take_append_drop _ _
  · rfl

def Smooth (pending : d.State → Bytes) (r : ZstdReader d) : Prop :=
  if r.next_input = [] then pending r.zds = [] else (d.ZSTD_decompressStream r.zds r.room r.next_input).is_error = false

/-- The states in which a call with this size decompresses. -/
inductive Visits (n_byte : Nat) (r : ZstdReader d) : ZstdReader d → Prop
  | here : r.buff_out_read_pos + n_byte > r.output.length → Visits n_byte r r
  | next {s t : ZstdReader d} : Visits n_byte r s → _decompress_from_buff s = (t, .OK) →
      t.buff_out_read_pos + n_byte > t.output.length → Visits n_byte r t

def Smoothly (pending : d.State → Bytes) (fuel : Nat) : ZstdReader d → List Nat → Prop
  | _, [] => True
  | r, n_byte :: sizes =>
    (∀ s, Visits n_byte r s → Smooth pending s) ∧
    ∀ r' data, zstd_reader_read_bytes n_byte fuel r = some (r', data) → Smoothly pending fuel r' sizes

/-- `p` bytes of the content are delivered, and the unread output is what follows them. -/
structure Inv (r : ZstdReader d) (p : Nat) (taken out : Bytes) : Prop where
  at_ : d.At r.zds taken out
  file : taken ++ (r.input ++ r.ifile) = r.file
  le : p ≤ out.length
  unread : out.drop p = r.output.drop r.buff_out_read_pos
  pos : r.buff_out_read_pos ≤ r.output.length
  room : r.output.length ≤ r.buff_out_sz

theorem inv_create (d : Decoder) (file : Bytes) : Inv (create_zstd_reader d file) 0 [] [] :=
  ⟨.create, rfl, le_rfl, rfl, le_rfl, zero_le _⟩

def todo (content : Bytes → Bytes) (r : ZstdReader d) (out : Bytes) : Nat :=
  (r.input ++ r.ifile).length + ((content r.file).length - out.length)

variable {content : Bytes → Bytes} {pending : d.State → Bytes} {r : ZstdReader d} {p n_byte fuel : Nat} {taken out : Bytes}

theorem Inv.out_le (hd : d.Contract content pending) (h : Inv r p taken out) : out <+: content r.file := by
  have hcontent := hd.content_eq _ _ _ h.at_
  rw [← h.file]
  exact (hcontent ▸ prefix_append out (pending r.zds)).trans (hd.mono _ _)

theorem next_input_eq_nil (h : r.next_input = []) (hin : 0 < d.ZSTD_DStreamInSize) : r.input = [] ∧ r.ifile = [] := by
  unfold ZstdReader.next_input at h
  split_ifs at h with hinput
  · exact ⟨hinput, (take_eq_nil_iff.1 h).resolve_left hin.ne'⟩
  · exact absurd h hinput

theorem decompress_eof (h : r.next_input = []) : _decompress_from_buff r = (prepare r, .MY_EOF) := by
  unfold _decompress_from_buff
  simp only [prepare_input, h, if_true]

theorem decompress_next (h : r.next_input ≠ []) {ret : Decompressed d.State}
    (hret : d.ZSTD_decompressStream r.zds r.room r.next_input = ret) :
    _decompress_from_buff r =
      ({ prepare r with
        zds := ret.zds, output := r.output.drop r.buff_out_read_pos ++ ret.out, input := r.next_input.drop ret.taken }, .OK) := by
  have hcall : d.ZSTD_decompressStream (prepare r).zds ((prepare r).buff_out_sz - (prepare r).output.length)
    (prepare r).input = ret := by
    rw [prepare_zds, prepare_output, prepare_input]
    exact hret
  unfold _decompress_from_buff
  rw [if_neg (by rwa [prepare_input]), hcall, prepare_output, prepare_input]

theorem read_ready (h : r.buff_out_read_pos + n_byte ≤ r.output.length) :
    zstd_reader_read_bytes n_byte fuel r =
      some ({ r with buff_out_read_pos := r.buff_out_read_pos + n_byte }, (r.output.drop r.buff_out_read_pos).take n_byte) := by
  unfold zstd_reader_read_bytes
  rw [if_neg (by omega)]

section

variable (h : r.buff_out_read_pos + n_byte > r.output.length)
include h

theorem read_next {r' : ZstdReader d} (hcall : _decompress_from_buff r = (r', .OK)) :
    zstd_reader_read_bytes n_byte (fuel + 1) r = zstd_reader_read_bytes n_byte fuel r' := by
  rw [zstd_reader_read_bytes, if_pos h]
  simp only [hcall]

theorem read_end {r' : ZstdReader d}
    (hcall : _decompress_from_buff r = (r', .MY_EOF)) : zstd_reader_read_bytes n_byte (fuel + 1) r = some (r', []) := by
  rw [zstd_reader_read_bytes, if_pos h]
  simp only [hcall]

end

section

variable (hd : d.Contract content pending)
include hd

section

variable (h : Inv r p taken out)
include h

theorem Inv.at_end (hsmooth : Smooth pending r) (hend : r.next_input = [])
    (hneed : r.buff_out_read_pos + n_byte > r.output.length) :
    ∃ r', _decompress_from_buff r = (r', .MY_EOF) ∧ r'.file = r.file ∧ Inv r' p taken out ∧
      ((content r.file).drop p).length < n_byte := by
  obtain ⟨hinput, hfile⟩ := next_input_eq_nil hend hd.in_size
  have hpending : pending r.zds = [] := by
    rw [Smooth, if_pos hend] at hsmooth
    exact hsmooth
  have htaken : taken = r.file := by
    rw [← h.file, hinput, hfile, append_nil, append_nil]
  have hcontent : content r.file = out := by
    rw [← htaken, hd.content_eq _ _ _ h.at_, hpending, append_nil]
  have hbytes := prepare_bytes r
  rw [hinput, hfile, hend] at hbytes
  refine ⟨prepare r, decompress_eof hend, prepare_file r, ⟨?_, ?_, h.le, ?_, ?_, ?_⟩, ?_⟩
  · rw [prepare_zds]
    exact h.at_
  · rw [prepare_input, prepare_file, hend, hbytes, ← htaken]
    exact append_nil _
  · rw [prepare_output, prepare_pos, h.unread]
    rfl
  · simp
  · rw [prepare_output]
    exact (length_drop ▸ sub_le _ _).trans h.room
  · have hpos := h.pos
    rw [hcontent, h.unread, length_drop]
    omega

theorem Inv.step (hsmooth : Smooth pending r) (hnext : r.next_input ≠ [])
    (hneed : r.buff_out_read_pos + n_byte > r.output.length) (hsize : 2 * n_byte ≤ r.buff_out_sz) :
    ∃ r' taken' out', _decompress_from_buff r = (r', .OK) ∧ r'.file = r.file ∧ Inv r' p taken' out' ∧
      todo content r' out' < todo content r out := by
  have hok : (d.ZSTD_decompressStream r.zds r.room r.next_input).is_error = false := by
    rw [Smooth, if_neg hnext] at hsmooth
    exact hsmooth
  have hat := Decoder.At.step r.room r.next_input h.at_ hok
  have hprogress := hd.progress _ _ _ r.room r.next_input h.at_ hok
  have htaken := hd.taken_le r.zds r.room r.next_input
  have hout := hd.out_le r.zds r.room r.next_input
  generalize hret : d.ZSTD_decompressStream r.zds r.room r.next_input = ret at hok hat hprogress htaken hout
  have hunread : (r.output.drop r.buff_out_read_pos).length < n_byte := by
    rw [length_drop]
    have := h.pos
    omega
  have hroom : 0 < r.room := by
    unfold ZstdReader.room
    omega
  have hbytes := prepare_bytes r
  set r' : ZstdReader d := { prepare r with
    zds := ret.zds, output := r.output.drop r.buff_out_read_pos ++ ret.out, input := r.next_input.drop ret.taken } with hr'
  have hinv : Inv r' p (taken ++ r.next_input.take ret.taken) (out ++ ret.out) := by
    refine ⟨hat, ?_, ?_, ?_, ?_, ?_⟩
    · rw [append_assoc, ← append_assoc (r.next_input.take ret.taken), take_append_drop, hbytes, h.file,
        prepare_file]
    · rw [length_append]
      exact h.le.trans (le_add_right _ _)
    · rw [prepare_pos, drop_append_of_le_length h.le, h.unread]
      rfl
    · rw [prepare_pos]
      exact zero_le _
    · show (r.output.drop r.buff_out_read_pos ++ ret.out).length ≤ r.buff_out_sz
      rw [length_append]
      unfold ZstdReader.room at hout hroom
      omega
  refine ⟨r', _, _, decompress_next hnext hret, prepare_file r, hinv, ?_⟩
  · have hle := (hinv.out_le hd).length_le
    have hfile : r'.file = r.file := prepare_file r
    have hrest : (r'.input ++ r'.ifile).length + ret.taken = (r.input ++ r.ifile).length := by
      rw [← hbytes]
      simp only [hr', length_append, length_drop]
      omega
    have hdone : 0 < ret.taken ∨ 0 < ret.out.length := (hprogress hroom hnext).imp id length_pos_iff.2
    rw [hfile, length_append] at hle
    unfold todo
    rw [hfile, show (out ++ ret.out).length = out.length + ret.out.length from length_append]
    omega

def slice (s : Bytes) (n_byte : Nat) : Bytes := if n_byte ≤ s.length then s.take n_byte else []

theorem read_spec (hsize : 2 * n_byte ≤ r.buff_out_sz)
    (hsmooth : ∀ s, Visits n_byte r s → Smooth pending s) (hfuel : todo content r out < fuel) :
    ∃ r' taken' out' data, zstd_reader_read_bytes n_byte fuel r = some (r', data) ∧ r'.file = r.file ∧
      data = slice ((content r.file).drop p) n_byte ∧ Inv r' (p + data.length) taken' out' := by
  induction fuel generalizing r taken out with
  | zero => omega
  | succ fuel ih =>
    by_cases hneed : r.buff_out_read_pos + n_byte > r.output.length
    · have hhere := hsmooth r (.here hneed)
      by_cases hend : r.next_input = []
      · obtain ⟨r', hcall, hfile, hinv, hshort⟩ := h.at_end hd hhere hend hneed
        refine ⟨r', taken, out, [], read_end hneed hcall, hfile, ?_, hinv⟩
        rw [slice, if_neg (by omega)]
      · obtain ⟨r1, taken1, out1, hcall, hfile, hinv, htodo⟩ := h.step hd hhere hend hneed hsize
        have hvisits : ∀ s, Visits n_byte r1 s → Smooth pending s := by
          intro s hs
          apply hsmooth
          induction hs with
          | here hneed1 => exact .next (.here hneed) hcall hneed1
          | next _ hstep hneed' ih => exact .next ih hstep hneed'
        obtain ⟨r', taken', out', data, hread, hfile', hdata, hinv'⟩ := ih hinv hsize hvisits (by omega)
        exact ⟨r', taken', out', data, (read_next hneed hcall).trans hread, hfile'.trans hfile, hfile ▸ hdata, hinv'⟩
    · have hle := (h.out_le hd).length_le
      have hroom : p + n_byte ≤ out.length := by
        have hlen := congrArg List.length h.unread
        rw [length_drop, length_drop] at hlen
        have hp := h.le
        omega
      have hdata : (r.output.drop r.buff_out_read_pos).take n_byte = slice ((content r.file).drop p) n_byte := by
        obtain ⟨rest, hrest⟩ := h.out_le hd
        rw [slice, if_pos (by rw [length_drop]; omega), ← h.unread, ← hrest, drop_append_of_le_length h.le,
          take_append_of_le_length (by rw [length_drop]; omega)]
      have hlen : ((r.output.drop r.buff_out_read_pos).take n_byte).length = n_byte := by
        rw [length_take, length_drop]
        omega
      refine ⟨_, taken, out, _, read_ready (by omega), rfl, hdata, h.at_, h.file, by rw [hlen]; exact hroom, ?_, ?_, h.room⟩
      · rw [hlen, ← drop_drop, h.unread, drop_drop]
      · show r.buff_out_read_pos + n_byte ≤ r.output.length
        omega

end

/-! ## Runs -/

def slices : Bytes → List Nat → List Bytes
  | _, [] => []
  | s, n_byte :: sizes => slice s n_byte :: slices (s.drop (slice s n_byte).length) sizes

theorem reads_spec {sizes : List Nat} (hsizes : ∀ n_byte ∈ sizes, 2 * n_byte ≤ r.buff_out_sz)
    (h : Inv r p taken out) (hsmooth : Smoothly pending fuel r sizes) (hfuel : r.file.length + (content r.file).length < fuel) :
    ∃ r', reads fuel r sizes = some (r', slices ((content r.file).drop p) sizes) := by
  induction sizes generalizing r p taken out with
  | nil => exact ⟨r, rfl⟩
  | cons n_byte sizes ih =>
    have htodo : todo content r out < fuel := by
      have hlen := congrArg List.length h.file
      rw [length_append] at hlen
      unfold todo
      omega
    obtain ⟨r1, taken1, out1, data, hread, hfile, hdata, hinv⟩ :=
      read_spec hd h (hsizes n_byte (by simp)) hsmooth.1 htodo
    obtain ⟨r', hrest⟩ := ih (r := r1) (fun n hn => hsizes n (by simp [hn])) hinv (hsmooth.2 r1 data hread) (by rwa [hfile])
    refine ⟨r', ?_⟩
    rw [hfile] at hrest
    simp only [reads, hread, hrest, bind_eq_bind, bind_some, Option.pure_def, slices]
    rw [← hdata, drop_drop]

end

/-- In a run in which the library returns no error, and in which it holds nothing back when the file is used up, every call
ends and gets the next slice of the content, or nothing when there is less. -/
theorem zstd_reads_slices (d : Decoder) (content : Bytes → Bytes) (pending : d.State → Bytes) (file : Bytes) (sizes : List Nat)
    (fuel : Nat) (hd : d.Contract content pending) (hsizes : ∀ n_byte ∈ sizes, 1 ≤ n_byte ∧ 2 * n_byte ≤ d.ZSTD_DStreamOutSize * 2)
    (hfuel : file.length + (content file).length < fuel) (hsmooth : Smoothly pending fuel (create_zstd_reader d file) sizes) :
    ∃ r, reads fuel (create_zstd_reader d file) sizes = some (r, slices (content file) sizes) :=
  reads_spec hd (fun n hn => (hsizes n hn).2) (inv_create d file) hsmooth hfuel

/-! ## A frame of run-length blocks -/

/-- A decoder that puts out `block i` when it has taken byte `i`. -/
structure BlockState where
  pos : Nat
  pend : Bytes

def feed (block : Nat → Bytes) (s : BlockState) (room : Nat) : Bytes → Decompressed BlockState
  | [] => { zds := { s with pend := s.pend.drop room }, out := s.pend.take room, taken := 0, is_error := false }
  | _ :: input =>
    if s.pend.length ≤ room then
      let ret := feed block { pos := s.pos + 1, pend := block s.pos } (room - s.pend.length) input
      { ret with out := s.pend ++ ret.out, taken := ret.taken + 1 }
    else { zds := { s with pend := s.pend.drop room }, out := s.pend.take room, taken := 0, is_error := false }

def blocks (block : Nat → Bytes) (pos : Nat) : Nat → Bytes
  | 0 => []
  | n + 1 => block pos ++ blocks block (pos + 1) n

def block_decoder (block : Nat → Bytes) (in_size out_size : Nat) : Decoder where
  State := BlockState
  ZSTD_createDStream := { pos := 0, pend := [] }
  ZSTD_decompressStream := feed block
  ZSTD_DStreamInSize := in_size
  ZSTD_DStreamOutSize := out_size

theorem blocks_add (block : Nat → Bytes) (pos m n : Nat) :
    blocks block pos (m + n) = blocks block pos m ++ blocks block (pos + m) n := by
  induction m generalizing pos with
  | zero => simp [blocks]
  | succ m ih => rw [succ_add_eq_add_succ, add_succ, blocks, blocks, ih, append_assoc, succ_add_eq_add_succ]

structure Fed (block : Nat → Bytes) (s : BlockState) (room : Nat) (input : Bytes) (ret : Decompressed BlockState) : Prop where
  taken_le : ret.taken ≤ input.length
  out_le : ret.out.length ≤ room
  no_error : ret.is_error = false
  pos : ret.zds.pos = s.pos + ret.taken
  bytes : s.pend ++ blocks block s.pos ret.taken = ret.out ++ ret.zds.pend
  flushed : ret.out.length < room → ret.zds.pend = []
  progress : 0 < room → input ≠ [] → 0 < ret.taken ∨ ret.out ≠ []

theorem feed_spec (block : Nat → Bytes) (s : BlockState) (room : Nat) (input : Bytes) :
    Fed block s room input (feed block s room input) := by
  induction input generalizing s room with
  | nil =>
    refine ⟨le_rfl, ?_, rfl, rfl, ?_, ?_, by simp⟩
    · exact (length_take ▸ min_le_left _ _)
    · simp [feed, blocks]
    · intro hlt
      simp only [feed, length_take] at hlt ⊢
      exact drop_eq_nil_of_le (by omega)
  | cons c input ih =>
    unfold feed
    split_ifs with hroom
    · have hrest := ih { pos := s.pos + 1, pend := block s.pos } (room - s.pend.length)
      have hout := hrest.out_le
      refine ⟨?_, ?_, hrest.no_error, ?_, ?_, ?_, fun _ _ => .inl (succ_pos _)⟩
      · simpa using hrest.taken_le
      · rw [length_append]
        omega
      · have hpos := hrest.pos
        simp only at hpos ⊢
        omega
      · rw [blocks, hrest.bytes, append_assoc]
      · intro hlt
        rw [length_append] at hlt
        exact hrest.flushed (by omega)
    · refine ⟨zero_le _, ?_, rfl, rfl, ?_, ?_, ?_⟩
      · exact (length_take ▸ min_le_left _ _)
      · simp [blocks]
      · intro hlt
        rw [length_take] at hlt
        omega
      · intro hpos _
        refine .inr fun hnil => ?_
        have hlen := congrArg List.length hnil
        rw [length_take, length_nil] at hlen
        omega

theorem block_decoder_contract (block : Nat → Bytes) {in_size : Nat} (hin : 0 < in_size) (out_size : Nat) :
    (block_decoder block in_size out_size).Contract (fun s => blocks block 0 s.length) BlockState.pend := by
  have hat : ∀ s taken out, (block_decoder block in_size out_size).At s taken out →
      BlockState.pos s = taken.length ∧ blocks block 0 taken.length = out ++ BlockState.pend s := by
    intro s taken out h
    induction h with
    | create => exact ⟨rfl, rfl⟩
    | @step s taken out room input _ _ ih =>
      have hfed := feed_spec block s room input
      have hlen : (input.take (feed block s room input).taken).length = (feed block s room input).taken := by
        rw [length_take]
        have := hfed.taken_le
        omega
      obtain ⟨hpos, hout⟩ := ih
      constructor
      · show (feed block s room input).zds.pos = (taken ++ input.take (feed block s room input).taken).length
        rw [hfed.pos, hpos, length_append, hlen]
      · show blocks block 0 (taken ++ input.take (feed block s room input).taken).length =
          out ++ (feed block s room input).out ++ (feed block s room input).zds.pend
        rw [length_append, hlen, blocks_add, hout, append_assoc, append_assoc, zero_add, ← hpos, hfed.bytes]
  refine ⟨hin, fun s room input => (feed_spec block s room input).taken_le, fun s room input => (feed_spec block s room input).out_le,
    ?_, fun s taken out h => (hat s taken out h).2, ?_, ?_⟩
  · intro a b
    rw [length_append, blocks_add]
    exact prefix_append _ _
  · exact fun s taken out room input _ _ hlt => (feed_spec block s room input).flushed hlt
  · exact fun s taken out room input _ _ hroom hne => (feed_spec block s room input).progress hroom hne

theorem visits_eq {s : ZstdReader d} (h : ∀ t, _decompress_from_buff r = (t, .OK) → t.buff_out_read_pos + n_byte ≤ t.output.length)
    (hs : Visits n_byte r s) : s = r := by
  induction hs with
  | here => rfl
  | next _ hstep hneed ih =>
    rw [ih] at hstep
    have := h _ hstep
    omega

theorem not_visits {s : ZstdReader d} (h : r.buff_out_read_pos + n_byte ≤ r.output.length) (hs : Visits n_byte r s) : False := by
  induction hs with
  | here hneed => omega
  | next _ _ _ ih => exact ih

def small_frame : Bytes := [0x28, 0xb5, 0x2f, 0xfd, 0x00, 0x38, 0x23, 0x00, 0x00, 0x41]

def small_block (i : Nat) : Bytes := if i = 9 then ascii "AAAA" else []

def small_decoder : Decoder := block_decoder small_block 131075 131072

theorem small_frame_smoothly :
    Smoothly (d := small_decoder) BlockState.pend 100 (create_zstd_reader small_decoder small_frame) [3, 1, 1] := by
  refine ⟨fun s hs => ?_, fun r1 data1 h1 => ?_⟩
  · rw [visits_eq (by rintro t ht; cases ht; decide) hs]
    rfl
  cases h1
  refine ⟨fun s hs => (not_visits (by decide) hs).elim, fun r2 data2 h2 => ?_⟩
  cases h2
  refine ⟨fun s hs => ?_, fun _ _ _ => trivial⟩
  rw [visits_eq (by rintro t ht; cases ht) hs]
  rfl

theorem zstd_reads_slices_of_small :
    ∃ r, reads 100 (create_zstd_reader small_decoder small_frame) [3, 1, 1] = some (r, [ascii "AAA", ascii "A", []]) :=
  zstd_reads_slices small_decoder _ BlockState.pend small_frame [3, 1, 1] 100 (block_decoder_contract small_block (by decide) 131072)
    (by decide) (by decide) small_frame_smoothly

def rle_frame : Bytes :=
  [0x28, 0xb5, 0x2f, 0xfd, 0x00, 0x38, 0x02, 0x00, 0x10, 0x41, 0x02, 0x00, 0x10, 0x41, 0x03, 0x00, 0x10, 0x41]

def rle_block (rle : Bytes) (i : Nat) : Bytes := if i = 9 ∨ i = 13 ∨ i = 17 then rle else []

def rle_decoder (rle : Bytes) : Decoder := block_decoder (rle_block rle) 131075 131072

section

variable {rle : Bytes}

def rle_reader (rle output : Bytes) (buff_out_read_pos : Nat) : ZstdReader (rle_decoder rle) where
  file := rle_frame
  ifile := []
  zds := ({ pos := 18, pend := rle } : BlockState)
  output := output
  buff_out_read_pos := buff_out_read_pos
  status := .MY_EOF

theorem feed_rle_frame (h : rle.length = 131072) : feed (rle_block rle) { pos := 0, pend := [] } 262144 rle_frame =
    { zds := { pos := 18, pend := rle }, out := rle ++ rle, taken := 18, is_error := false } := by
  simp [feed, rle_frame, rle_block, h]

theorem rle_room (rle : Bytes) : (create_zstd_reader (rle_decoder rle) rle_frame).room = 262144 := by
  have hout : (rle_decoder rle).ZSTD_DStreamOutSize = 131072 := rfl
  have hunread : ((create_zstd_reader (rle_decoder rle) rle_frame).output.drop
      (create_zstd_reader (rle_decoder rle) rle_frame).buff_out_read_pos).length = 0 := rfl
  rw [ZstdReader.room, ZstdReader.buff_out_sz, hout, hunread]

section

variable (h : rle.length = 131072)
include h

theorem rle_first : _decompress_from_buff (create_zstd_reader (rle_decoder rle) rle_frame) =
    (rle_reader rle (rle ++ rle) 0, .OK) := by
  have hnext : (create_zstd_reader (rle_decoder rle) rle_frame).next_input = rle_frame := by
    simp [ZstdReader.next_input, create_zstd_reader, rle_decoder, block_decoder, rle_frame]
  have hprepare : prepare (create_zstd_reader (rle_decoder rle) rle_frame) =
      { file := rle_frame, ifile := [], zds := (rle_decoder rle).ZSTD_createDStream, input := rle_frame, status := .MY_EOF } := by
    simp [prepare, _read_from_file, create_zstd_reader, rle_decoder, block_decoder, rle_frame]
  have hroom := rle_room rle
  have hzds : (create_zstd_reader (rle_decoder rle) rle_frame).zds = (rle_decoder rle).ZSTD_createDStream := rfl
  have hcall : (rle_decoder rle).ZSTD_decompressStream (create_zstd_reader (rle_decoder rle) rle_frame).zds
        (create_zstd_reader (rle_decoder rle) rle_frame).room (create_zstd_reader (rle_decoder rle) rle_frame).next_input =
      ({ zds := ({ pos := 18, pend := rle } : BlockState), out := rle ++ rle, taken := 18, is_error := false } :
        Decompressed (rle_decoder rle).State) := by
    rw [hnext, hroom, hzds]
    exact feed_rle_frame h
  rw [decompress_next (by rw [hnext]; decide) hcall, hprepare, hnext]
  rfl

theorem rle_ready {k : Nat} (hk : k ≤ 131072) (fuel : Nat) :
    zstd_reader_read_bytes 131072 fuel (rle_reader rle (rle ++ rle) k) =
      some (rle_reader rle (rle ++ rle) (k + 131072), ((rle ++ rle).drop k).take 131072) := by
  apply read_ready
  show k + 131072 ≤ (rle ++ rle).length
  rw [length_append, h]
  omega

theorem rle_reads (fuel : Nat) :
    ∃ r, reads (fuel + 1) (create_zstd_reader (rle_decoder rle) rle_frame) [131072, 131072, 131072] = some (r, [rle, rle, []]) := by
  have hlen : (rle ++ rle).length = 262144 := by rw [length_append, h]
  have hread1 : zstd_reader_read_bytes 131072 (fuel + 1) (create_zstd_reader (rle_decoder rle) rle_frame) =
      some (rle_reader rle (rle ++ rle) 131072, rle) := by
    rw [read_next (by exact succ_pos _) (rle_first h), rle_ready h (zero_le _), drop_zero, take_left' h]
  have hread2 : zstd_reader_read_bytes 131072 (fuel + 1) (rle_reader rle (rle ++ rle) 131072) =
      some (rle_reader rle (rle ++ rle) 262144, rle) := by
    rw [rle_ready h le_rfl, drop_left' h, take_of_length_le h.le]
  have hread3 : zstd_reader_read_bytes 131072 (fuel + 1) (rle_reader rle (rle ++ rle) 262144) =
      some (prepare (rle_reader rle (rle ++ rle) 262144), []) :=
    read_end (by show 262144 + 131072 > (rle ++ rle).length; omega) (decompress_eof rfl)
  refine ⟨prepare (rle_reader rle (rle ++ rle) 262144), ?_⟩
  simp only [reads, hread1, hread2, hread3, bind_eq_bind, bind_some, Option.pure_def]

end

theorem blocks_rle_frame (rle : Bytes) : blocks (rle_block rle) 0 rle_frame.length = rle ++ (rle ++ rle) := by
  simp [blocks, rle_frame, rle_block]

theorem slices_rle (h : rle.length = 131072) : slices (rle ++ (rle ++ rle)) [131072, 131072, 131072] = [rle, rle, rle] := by
  simp [slices, slice, h, drop_left']

end

/-- A frame of 384 KiB of one letter: a third of it is lost, however long the loop may run. -/
theorem rle_last_block_lost :
    (rle_decoder (List.replicate 131072 0x41)).Contract (fun s => blocks (rle_block (List.replicate 131072 0x41)) 0 s.length)
      BlockState.pend ∧
    (∀ fuel, 0 < fuel → ∃ r, reads fuel (create_zstd_reader (rle_decoder (List.replicate 131072 0x41)) rle_frame)
      [131072, 131072, 131072] = some (r, [List.replicate 131072 0x41, List.replicate 131072 0x41, []])) ∧
    slices (blocks (rle_block (List.replicate 131072 0x41)) 0 rle_frame.length) [131072, 131072, 131072] =
      [List.replicate 131072 0x41, List.replicate 131072 0x41, List.replicate 131072 0x41] := by
  have hlen : (List.replicate 131072 (0x41 : UInt8)).length = 131072 := length_replicate
  generalize List.replicate 131072 (0x41 : UInt8) = rle at hlen ⊢
  refine ⟨block_decoder_contract _ (by decide) _, ?_, ?_⟩
  · intro fuel hfuel
    obtain ⟨n, rfl⟩ : ∃ n, fuel = n + 1 := ⟨fuel - 1, by omega⟩
    exact rle_reads hlen n
  · rw [blocks_rle_frame, slices_rle hlen]

end CacheSim.Zstd
