import Flingd.Base.Framing
import Flingd.Platform.PlatformPal

/-! Frames survive any segmentation of the stream. -/
namespace Flingd.Platform.TcpSessionWrapper
variable {m b q outData : Bytes} {ms todo : List Bytes}

/-- A message that can be framed: its size is an `int`, and leaves room for the header. -/
def Sendable (m : Bytes) : Prop := m ≠ [] ∧ m.length < 2 ^ 30

instance (m : Bytes) : Decidable (Sendable m) := inferInstanceAs (Decidable (_ ∧ _))

/-! ### One frame -/

/-- What a header makes of `parseMessage`. -/
theorem parseMessage_header (hm : Sendable m) :
    parseMessage (decimal m.length ++ 58 :: q) outData =
      if m.length ≤ q.length then (((frame m).length : Int), q.take m.length) else (0, []) := by
  obtain ⟨hne, hlt⟩ := hm
  have hpos := List.length_pos_iff.mpr hne
  have hshort : (decimal m.length).length ≤ 10 := length_decimal (by omega) (by omega)
  have hcolon : ∀ c ∈ decimal m.length, ¬ c = 58 := by
    rintro c hc rfl
    exact absurd (mem_decimal hc).2 (by decide)
  have hnul : (0 : UInt8) ∉ decimal m.length := fun h => absurd (mem_decimal h).1 (by decide)
  have hindex : StringUtils.findFirstSymbol 58 (decimal m.length ++ 58 :: q) =
      (decimal m.length).length := by
    have hfind : (decimal m.length ++ 58 :: q).findIdx? (· = 58) =
        some (decimal m.length).length := by
      rw [List.findIdx?_append, List.findIdx?_eq_none_iff.mpr (by simpa using hcolon)]
      simp [List.findIdx?_cons]
    rw [StringUtils.findFirstSymbol, hfind]
    exact int_of_lt (by omega) (by simp only [Option.getD_some]; omega)
  have hhead : StringUtils.headSubString (decimal m.length ++ 58 :: q)
      (decimal m.length).length = decimal m.length := by
    rw [StringUtils.headSubString, Int.toNat_natCast, List.take_left]
  have hbody : StringUtils.subString (decimal m.length ++ 58 :: q)
      ((decimal m.length).length + 1) m.length = q.take m.length := by
    have hstart : ((decimal m.length).length + 1 : Int).toNat = (decimal m.length).length + 1 :=
      rfl
    rw [StringUtils.subString, Int.toNat_natCast, hstart, ← List.drop_drop, List.drop_left,
      List.drop_one, List.tail_cons]
  have hsize : (frame m).length = (decimal m.length).length + 1 + m.length := by
    rw [frame, List.length_append, List.length_cons]
    omega
  have hint : int ((decimal m.length).length + 1 + m.length) = (frame m).length := by
    rw [int_of_lt (by omega) (by omega), hsize]
    omega
  have hrest : (decimal m.length ++ 58 :: q).length - (decimal m.length).length - 1 =
      q.length := by
    rw [List.length_append, List.length_cons]
    omega
  have hatoi := atoi_decimal (show m.length < 2 ^ 31 by omega)
  simp only [parseMessage, hindex, hhead, cStr_of_not_mem hnul, hatoi, hrest, hbody, hint,
    Int.toNat_natCast]
  rw [if_pos (by omega), if_neg (by omega)]

theorem parseMessage_frame (hm : Sendable m) :
    parseMessage (frame m ++ q) outData = (((frame m).length : Int), m) := by
  have hsplit : frame m ++ q = decimal m.length ++ 58 :: (m ++ q) := by
    rw [frame, List.append_assoc, List.cons_append]
  have hle : m.length ≤ (m ++ q).length := by
    rw [List.length_append]
    omega
  rw [hsplit, parseMessage_header hm, if_pos hle, List.take_left]

/-- Nothing is erased before the frame is complete. -/
theorem parseMessage_begun (hms : ∀ m ∈ todo, Sendable m) (hb : Begun frame todo b) :
    (parseMessage b outData).1 = 0 := by
  cases todo with
  | nil =>
    obtain rfl : b = [] := hb
    rw [parseMessage_nil]
  | cons m todo =>
    obtain ⟨hle, hne⟩ := hb
    have hm := hms m List.mem_cons_self
    have hdigits (hb : b <+: decimal m.length) : (parseMessage b outData).1 = 0 := by
      have hcolon : ∀ c ∈ b, ¬ c = 58 := by
        rintro c hc rfl
        exact absurd (mem_decimal (hb.subset hc)).2 (by decide)
      have hfind : StringUtils.findFirstSymbol 58 b = -1 := by
        rw [StringUtils.findFirstSymbol, List.findIdx?_eq_none_iff.mpr (by simpa using hcolon)]
        decide
      simp only [parseMessage, hfind]
      rfl
    rcases prefix_append_cases hle with hb | ⟨q, rfl, hq⟩
    · exact hdigits hb
    · cases q with
      | nil => exact hdigits (by rw [List.append_nil])
      | cons c body =>
        obtain ⟨rfl, hbody⟩ := List.cons_prefix_cons.mp hq
        -- The header is complete, the body is not.
        have hlt : ¬ m.length ≤ body.length := fun hlen =>
          hne (by rw [frame, hbody.eq_of_length_le hlen])
        rw [parseMessage_header hm, if_neg hlt]

/-! ### The loop -/

theorem drain_begun {w : TcpSessionWrapper} (hms : ∀ m ∈ todo, Sendable m)
    (hb : Begun frame todo w.buffer_) (data : Bytes) : w.drain data = w := by
  have herase : ¬ 0 < (parseMessage w.buffer_ data).1 := by
    rw [parseMessage_begun hms hb]
    exact lt_irrefl 0
  unfold drain
  exact dif_neg herase

/-- The loop takes the complete frames, and leaves what is begun. -/
theorem drain_frames {w : TcpSessionWrapper} (hms : ∀ m ∈ ms, Sendable m)
    (htodo : ∀ m ∈ todo, Sendable m) (hb : Begun frame todo b)
    (hw : w.buffer_ = ms.flatMap frame ++ b) (data : Bytes) :
    w.drain data = { w with buffer_ := b, processed := w.processed ++ ms } := by
  induction ms generalizing w data with
  | nil =>
    obtain rfl : w.buffer_ = b := hw
    rw [drain_begun htodo hb, List.append_nil]
  | cons m ms ih =>
    have hm := hms m List.mem_cons_self
    have hbuf : w.buffer_ = frame m ++ (ms.flatMap frame ++ b) := by
      rw [hw, List.flatMap_cons, List.append_assoc]
    have hparse : parseMessage w.buffer_ data = (((frame m).length : Int), m) := by
      rw [hbuf, parseMessage_frame hm]
    have hpos : 0 < (frame m).length := by
      rw [frame, List.length_append, List.length_cons]
      omega
    have hshift : StringUtils.shiftStringLeft w.buffer_ (frame m).length =
        ms.flatMap frame ++ b := by
      rw [StringUtils.shiftStringLeft, Int.toNat_natCast, hbuf, List.drop_left]
    have herase : 0 < (parseMessage w.buffer_ data).1 := by
      rw [hparse]
      exact Int.natCast_pos.mpr hpos
    unfold drain
    refine (dif_pos herase).trans ?_
    simp only [hparse, hshift]
    rw [if_pos hm.1, ih (fun m hm => hms m (List.mem_cons_of_mem _ hm)) rfl]
    simp only [List.append_assoc, List.singleton_append]

theorem onMessage_frames {w : TcpSessionWrapper} {segment : Bytes} (hms : ∀ m ∈ ms, Sendable m)
    (htodo : ∀ m ∈ todo, Sendable m) (hb : Begun frame todo b)
    (hw : w.buffer_ ++ segment = ms.flatMap frame ++ b) :
    w.onMessage segment = { w with buffer_ := b, processed := w.processed ++ ms } :=
  drain_frames hms htodo hb hw []

/-! ### Segments -/

/-- However the frames are cut, each message is processed once, in order, and nothing is
left in the buffer. -/
theorem segments_processed {segments : List Bytes} (hms : ∀ m ∈ ms, Sendable m)
    (hcut : segments.flatten = ms.flatMap frame) :
    segments.foldl onMessage start = { start with processed := ms } := by
  have hne : ∀ m ∈ ms, frame m ≠ [] := fun m _ => by
    rw [frame]
    exact List.append_ne_nil_of_right_ne_nil _ (List.cons_ne_nil _ _)
  have hstep : ∀ w out done rest b segment b', ms = out ++ done ++ rest →
      w = { start with buffer_ := b, processed := out } →
      b ++ segment = done.flatMap frame ++ b' → Begun frame rest b' →
      onMessage w segment = { start with buffer_ := b', processed := out ++ done } := by
    rintro w out done rest b segment b' rfl rfl hb hbegun
    refine onMessage_frames (fun m hm => hms m ?_) (fun m hm => hms m ?_) hbegun hb
    · exact List.mem_append_left _ (List.mem_append_right _ hm)
    · exact List.mem_append_right _ hm
  exact foldl_pieces hne hstep rfl hcut

/-- A cut inside the first size, and one at a colon. -/
theorem segments_processed_cut : [str "1", str "0:abcdefghij5:", str "qw:rt"].foldl onMessage start =
    { start with processed := [str "abcdefghij", str "qw:rt"] } :=
  segments_processed (by decide) (by decide)

end Flingd.Platform.TcpSessionWrapper
