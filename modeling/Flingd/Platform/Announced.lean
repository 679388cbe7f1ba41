import Flingd.Platform.Segments

/-! What `parseMessage` makes of any bytes. The header is read up to its first NUL
byte, but is as long as it is: where the two differ, a message can be taken before it
has arrived. -/
namespace Flingd.Platform.TcpSessionWrapper
variable {m header rest outData : Bytes}

/-- `parseMessage` is called on `buffer`, which begins at `offset` in the stream. -/
structure Call where
  offset : Nat
  buffer : Bytes

/-- The message that `processMessage` gets. -/
def Call.handed (c : Call) : Option Bytes :=
  if 0 < (parseMessage c.buffer []).1 then
    if (parseMessage c.buffer []).2 ≠ [] then some (parseMessage c.buffer []).2 else none
  else none

/-- The calls of one loop, when `received` bytes of the stream have arrived. -/
def drainCalls (received : Nat) (buffer : Bytes) : List Call :=
  ⟨received - buffer.length, buffer⟩ ::
    if _ : 0 < (parseMessage buffer []).1 then
      if (parseMessage buffer []).2 ≠ [] then
        drainCalls received (StringUtils.shiftStringLeft buffer (parseMessage buffer []).1)
      else []
    else []
termination_by buffer.length
decreasing_by exact shiftStringLeft_lt (by assumption)

def calls (received : Nat) (w : TcpSessionWrapper) : List Bytes → List Call
  | [] => []
  | message :: messages =>
    let received := received + message.length
    drainCalls received (w.buffer_ ++ message) ++ calls received (w.onMessage message) messages

/-- No more is erased than there is. A message that is handed on has as many bytes as its header
says, and in the stream they follow the header's colon. -/
def Call.Announced (stream : Bytes) (c : Call) : Prop :=
  (parseMessage c.buffer []).1 ≤ c.buffer.length ∧ ∀ data, c.handed = some data → ∃ header rest,
    stream.drop c.offset = header ++ 58 :: (data ++ rest) ∧ 58 ∉ header ∧
      (data.length : Int) = atoi (cStr header)

/-- The number in front of the header's first NUL byte is greater than the number of bytes
behind the colon, by no more than there are from the NUL byte to the colon. -/
def Early (m : Bytes) : Prop := ∃ header rest, m = header ++ 58 :: rest ∧ 58 ∉ header ∧
  rest.length < atoi (cStr header) ∧
  atoi (cStr header) ≤ rest.length + (header.length - (cStr header).length : Nat) ∧
  header.length + 1 + atoi (cStr header) < 2 ^ 31

/-! ### One call -/

theorem int_eq (n : Int) :
    int n = if n % 2 ^ 32 < 2 ^ 31 then n % 2 ^ 32 else n % 2 ^ 32 - 2 ^ 32 := by
  unfold int
  rw [Int.bmod_eq_emod]
  norm_num
  split_ifs <;> omega

theorem int_le (n : Nat) : int n ≤ n := by
  rw [int_eq]
  split_ifs <;> omega

theorem findIdx_split (h : 58 ∉ header) :
    (header ++ 58 :: rest).findIdx? (· = 58) = some header.length := by
  have hcolon : ∀ c ∈ header, ¬ c = 58 := fun c hc hc' => h (hc' ▸ hc)
  rw [List.findIdx?_append, List.findIdx?_eq_none_iff.mpr (by simpa using hcolon)]
  simp [List.findIdx?_cons]

theorem split_of_mem (h : 58 ∈ m) : ∃ header rest, m = header ++ 58 :: rest ∧ 58 ∉ header := by
  obtain ⟨header, rest, hm, hh⟩ := List.eq_append_cons_of_mem h
  exact ⟨header, rest, hm, hh⟩

theorem split_unique {header' rest' : Bytes} (h : 58 ∉ header) (h' : 58 ∉ header')
    (heq : header ++ 58 :: rest = header' ++ 58 :: rest') : header = header' ∧ rest = rest' := by
  have hlen : header.length = header'.length := by
    have := (findIdx_split h : (header ++ 58 :: rest).findIdx? (· = 58) = _)
    rw [heq, findIdx_split h'] at this
    exact (Option.some.inj this).symm
  obtain ⟨hh, hr⟩ := List.append_inj heq hlen
  exact ⟨hh, (List.cons.inj hr).2⟩

theorem parseMessage_colon (outData : Bytes) (h : 0 ≤ StringUtils.findFirstSymbol 58 m) :
    parseMessage m outData = parseMessage m [] := by
  simp only [parseMessage, if_pos h]

theorem parseMessage_notSeen (h : ¬ 0 ≤ StringUtils.findFirstSymbol 58 m) :
    parseMessage m outData = (0, outData) := by
  simp only [parseMessage, if_neg h]

theorem parseMessage_noColon (h : 58 ∉ m) : parseMessage m outData = (0, outData) := by
  have hfind : StringUtils.findFirstSymbol 58 m = -1 := by
    have hcolon : ∀ c ∈ m, ¬ c = 58 := fun c hc hc' => h (hc' ▸ hc)
    rw [StringUtils.findFirstSymbol, List.findIdx?_eq_none_iff.mpr (by simpa using hcolon)]
    decide
  exact parseMessage_notSeen (by omega)

/-- A colon so far back that its index is negative is not seen. -/
theorem parseMessage_farColon (h : 58 ∉ header) (hlo : 2 ^ 31 ≤ header.length)
    (hhi : header.length < 2 ^ 32) :
    parseMessage (header ++ 58 :: rest) outData = (0, outData) := by
  have hfind : StringUtils.findFirstSymbol 58 (header ++ 58 :: rest) < 0 := by
    rw [StringUtils.findFirstSymbol, findIdx_split h, Option.getD_some, int_eq]
    split_ifs <;> omega
  exact parseMessage_notSeen (by omega)

theorem cStr_length_le (s : Bytes) : (cStr s).length ≤ s.length := (List.takeWhile_sublist _).length_le

theorem atoi_lt (s : Bytes) : atoi s < 2 ^ 31 := by
  have hint (n : Int) : int n < 2 ^ 31 := by
    rw [int_eq]
    split_ifs <;> omega
  exact hint _

theorem parseMessage_split (h : 58 ∉ header) (hlt : header.length < 2 ^ 31) :
    parseMessage (header ++ 58 :: rest) outData =
      if atoi (cStr header) ≤ 0 then (int (header ++ 58 :: rest).length, [])
      else if atoi (cStr header) ≤ rest.length + (header.length - (cStr header).length : Nat) then
        (int (header.length + 1 + atoi (cStr header)), rest.take (atoi (cStr header)).toNat)
      else (0, []) := by
  have hindex : StringUtils.findFirstSymbol 58 (header ++ 58 :: rest) = header.length := by
    rw [StringUtils.findFirstSymbol, findIdx_split h, Option.getD_some]
    exact int_of_lt (by omega) (by omega)
  have hhead : StringUtils.headSubString (header ++ 58 :: rest) header.length = header := by
    rw [StringUtils.headSubString, Int.toNat_natCast, List.take_left]
  have hbody (n : Int) : StringUtils.subString (header ++ 58 :: rest) (header.length + 1) n =
      rest.take n.toNat := by
    have hstart : ((header.length : Int) + 1).toNat = header.length + 1 := rfl
    rw [StringUtils.subString, hstart, ← List.drop_drop, List.drop_left, List.drop_one,
      List.tail_cons]
  have hle := cStr_length_le header
  have hfits : (atoi (cStr header)).toNat ≤
      (header ++ 58 :: rest).length - (cStr header).length - 1 ↔
        atoi (cStr header) ≤ rest.length + (header.length - (cStr header).length : Nat) := by
    rw [List.length_append, List.length_cons]
    omega
  simp only [parseMessage, hindex, hhead, hbody, hfits]
  rw [if_pos (by omega)]

/-- What was parsed before makes no difference where anything is erased. -/
theorem parseMessage_outData (m outData : Bytes) : (parseMessage m outData).1 = (parseMessage m []).1 ∧
    (0 < (parseMessage m []).1 → (parseMessage m outData).2 = (parseMessage m []).2) := by
  by_cases h : 0 ≤ StringUtils.findFirstSymbol 58 m
  · rw [parseMessage_colon outData h]
    exact ⟨rfl, fun _ => rfl⟩
  · rw [parseMessage_notSeen h, parseMessage_notSeen h]
    exact ⟨rfl, fun h => absurd h (lt_irrefl _)⟩

/-- No more is erased than there is, unless a message is taken early. -/
theorem erase_le_iff (hcolon : ∀ header rest, m = header ++ 58 :: rest → 58 ∉ header →
    header.length < 2 ^ 32) : (parseMessage m []).1 ≤ m.length ↔ ¬ Early m := by
  by_cases hmem : 58 ∈ m
  · obtain ⟨header, rest, rfl, hh⟩ := split_of_mem hmem
    have hearly : Early (header ++ 58 :: rest) ↔ rest.length < atoi (cStr header) ∧
        atoi (cStr header) ≤ rest.length + (header.length - (cStr header).length : Nat) ∧
        header.length + 1 + atoi (cStr header) < 2 ^ 31 := by
      constructor
      · rintro ⟨header', rest', heq, hh', h⟩
        obtain ⟨rfl, rfl⟩ := split_unique hh hh' heq
        exact h
      · exact fun h => ⟨header, rest, rfl, hh, h⟩
    have hsize : (header ++ 58 :: rest).length = header.length + 1 + rest.length := by
      rw [List.length_append, List.length_cons]
      omega
    have hlt := atoi_lt (cStr header)
    rw [hearly]
    by_cases hfar : 2 ^ 31 ≤ header.length
    · rw [parseMessage_farColon hh hfar (hcolon header rest rfl hh)]
      refine iff_of_true (by omega) ?_
      omega
    · rw [parseMessage_split hh (by omega), hsize]
      have hint := int_le (header.length + 1 + rest.length)
      have hsum := int_eq (header.length + 1 + atoi (cStr header))
      generalize atoi (cStr header) = length at hlt hsum ⊢
      generalize (cStr header).length = k at hsum ⊢
      split_ifs
      · refine iff_of_true ?_ (by omega)
        simp only
        exact hint
      · simp only [hsum]
        split_ifs <;> omega
      · exact iff_of_true (by simp only; omega) (by omega)
  · rw [parseMessage_noColon hmem]
    refine iff_of_true (by omega) ?_
    rintro ⟨header, rest, rfl, -⟩
    exact hmem (List.mem_append_right _ List.mem_cons_self)

/-- What is taken is what the header says, when no more is erased than there is. -/
theorem taken {data : Bytes} (hcolon : ∀ header rest, m = header ++ 58 :: rest → 58 ∉ header →
    header.length < 2 ^ 32) (hle : (parseMessage m []).1 ≤ m.length)
    (hpos : 0 < (parseMessage m []).1) (hdata : (parseMessage m []).2 = data) (hne : data ≠ []) :
    ∃ header rest, m = header ++ 58 :: (data ++ rest) ∧ 58 ∉ header ∧
      (data.length : Int) = atoi (cStr header) := by
  by_cases hmem : 58 ∈ m
  · obtain ⟨header, rest, rfl, hh⟩ := split_of_mem hmem
    by_cases hfar : 2 ^ 31 ≤ header.length
    · rw [parseMessage_farColon hh hfar (hcolon header rest rfl hh)] at hpos
      exact absurd hpos (lt_irrefl _)
    · have hlt := atoi_lt (cStr header)
      have hsum := int_eq (header.length + 1 + atoi (cStr header))
      have hsize : (header ++ 58 :: rest).length = header.length + 1 + rest.length := by
        rw [List.length_append, List.length_cons]
        omega
      rw [parseMessage_split hh (by omega)] at hle hpos hdata
      rw [hsize] at hle
      have hfits : 0 < atoi (cStr header) ∧ atoi (cStr header) ≤ rest.length ∧
          data = rest.take (atoi (cStr header)).toNat := by
        generalize atoi (cStr header) = length at hlt hsum hle hpos hdata ⊢
        by_cases h0 : length ≤ 0
        · rw [if_pos h0] at hdata
          exact absurd hdata.symm hne
        · rw [if_neg h0] at hle hpos hdata
          split_ifs at hle hpos hdata
          · simp only [hsum] at hle hpos
            refine ⟨by omega, ?_, hdata.symm⟩
            split_ifs at hle hpos <;> omega
          · exact absurd hpos (lt_irrefl _)
      obtain ⟨h0, hrest, rfl⟩ := hfits
      refine ⟨header, rest.drop (atoi (cStr header)).toNat, ?_, hh, ?_⟩
      · rw [List.take_append_drop]
      · rw [List.length_take, min_eq_left (by omega)]
        omega
  · rw [parseMessage_noColon hmem] at hpos
    exact absurd hpos (lt_irrefl _)

/-! ### A run -/

theorem drainCalls_take {received : Nat} {buffer : Bytes} (h : 0 < (parseMessage buffer []).1)
    (hne : (parseMessage buffer []).2 ≠ []) :
    drainCalls received buffer = ⟨received - buffer.length, buffer⟩ ::
      drainCalls received (StringUtils.shiftStringLeft buffer (parseMessage buffer []).1) := by
  rw [drainCalls]
  simp only [dif_pos h, if_pos hne]

theorem drainCalls_last {received : Nat} {buffer : Bytes}
    (h : 0 < (parseMessage buffer []).1 → (parseMessage buffer []).2 = []) :
    drainCalls received buffer = [⟨received - buffer.length, buffer⟩] := by
  rw [drainCalls]
  by_cases hpos : 0 < (parseMessage buffer []).1
  · have hne : ¬ (parseMessage buffer []).2 ≠ [] := fun hne => hne (h hpos)
    simp only [dif_pos hpos, if_neg hne]
  · simp only [dif_neg hpos]

theorem drain_take {w : TcpSessionWrapper} {data : Bytes}
    (h : 0 < (parseMessage w.buffer_ data).1) (hne : (parseMessage w.buffer_ data).2 ≠ []) :
    w.drain data = drain { w with
        buffer_ := StringUtils.shiftStringLeft w.buffer_ (parseMessage w.buffer_ data).1
        processed := w.processed ++ [(parseMessage w.buffer_ data).2] }
      (parseMessage w.buffer_ data).2 := by
  conv_lhs => unfold drain
  refine (dif_pos h).trans ?_
  simp only [if_pos hne]

theorem drain_last {w : TcpSessionWrapper} {data : Bytes}
    (h : 0 < (parseMessage w.buffer_ data).1) (hnil : (parseMessage w.buffer_ data).2 = []) :
    w.drain data = { w with
      buffer_ := StringUtils.shiftStringLeft w.buffer_ (parseMessage w.buffer_ data).1 } := by
  have hne : ¬ (parseMessage w.buffer_ data).2 ≠ [] := fun hne => hne hnil
  unfold drain
  refine (dif_pos h).trans ?_
  simp only [if_neg hne]

theorem drain_done {w : TcpSessionWrapper} {data : Bytes}
    (h : ¬ 0 < (parseMessage w.buffer_ data).1) : w.drain data = w := by
  unfold drain
  exact dif_neg h

theorem handed_some (offset : Nat) (h : 0 < (parseMessage m []).1)
    (hne : (parseMessage m []).2 ≠ []) :
    Call.handed ⟨offset, m⟩ = some (parseMessage m []).2 := by
  simp only [Call.handed, if_pos h, if_pos hne]

theorem handed_none (offset : Nat)
    (h : 0 < (parseMessage m []).1 → (parseMessage m []).2 = []) :
    Call.handed ⟨offset, m⟩ = none := by
  by_cases hpos : 0 < (parseMessage m []).1
  · have hne : ¬ (parseMessage m []).2 ≠ [] := fun hne => hne (h hpos)
    simp only [Call.handed, if_pos hpos, if_neg hne]
  · simp only [Call.handed, if_neg hpos]

theorem of_handed {c : Call} {data : Bytes} (h : c.handed = some data) :
    0 < (parseMessage c.buffer []).1 ∧ data ≠ [] ∧ (parseMessage c.buffer []).2 = data := by
  unfold Call.handed at h
  split_ifs at h with hpos hne
  obtain rfl := Option.some.inj h
  exact ⟨hpos, hne, rfl⟩

theorem shiftStringLeft_suffix (buffer : Bytes) (length : Int) :
    StringUtils.shiftStringLeft buffer length <:+ buffer :=
  List.drop_suffix _ _

structure Drained (w w' : TcpSessionWrapper) (cs : List Call) (received : Nat) : Prop where
  processed : w'.processed = w.processed ++ cs.filterMap Call.handed
  left : w'.buffer_ <:+ w.buffer_
  calls : ∀ c ∈ cs, c.buffer <:+ w.buffer_ ∧ c.offset = received - c.buffer.length

/-- The last call of a loop. -/
theorem drained_last {w : TcpSessionWrapper} {left : Bytes} {received : Nat}
    (h : 0 < (parseMessage w.buffer_ []).1 → (parseMessage w.buffer_ []).2 = [])
    (hleft : left <:+ w.buffer_) :
    Drained w { w with buffer_ := left } (drainCalls received w.buffer_) received := by
  rw [drainCalls_last h]
  refine ⟨?_, hleft, fun c hc => ?_⟩
  · rw [List.filterMap_cons_none (handed_none _ h), List.filterMap_nil, List.append_nil]
  · obtain rfl := List.mem_singleton.mp hc
    exact ⟨List.suffix_rfl, rfl⟩

theorem drain_calls (w : TcpSessionWrapper) (data : Bytes) (received : Nat) :
    Drained w (w.drain data) (drainCalls received w.buffer_) received := by
  induction w, data using drain.induct with
  | case1 w data h buffer data' hne ih =>
    obtain ⟨herase, hdata⟩ := parseMessage_outData w.buffer_ data
    have hpos : 0 < (parseMessage w.buffer_ []).1 := by rwa [herase] at h
    have hdata : data' = (parseMessage w.buffer_ []).2 := hdata hpos
    have hne' : (parseMessage w.buffer_ []).2 ≠ [] := by rwa [hdata] at hne
    have hbuffer : StringUtils.shiftStringLeft w.buffer_ (parseMessage w.buffer_ []).1 = buffer := by
      rw [← herase]
    have hsuffix : buffer <:+ w.buffer_ := shiftStringLeft_suffix _ _
    obtain ⟨hprocessed, hleft, hcalls⟩ := ih
    dsimp only at hprocessed hleft hcalls
    rw [drain_take h hne, drainCalls_take hpos hne', hbuffer]
    refine ⟨?_, hleft.trans hsuffix, fun c hc => ?_⟩
    · rw [hprocessed, List.filterMap_cons_some (handed_some _ hpos hne'), ← hdata,
        List.append_assoc, List.singleton_append]
    · rcases List.mem_cons.mp hc with rfl | hc
      · exact ⟨List.suffix_rfl, rfl⟩
      · obtain ⟨hs, ho⟩ := hcalls c hc
        exact ⟨hs.trans hsuffix, ho⟩
  | case2 w data h data' hnil =>
    have hnil : (parseMessage w.buffer_ data).2 = [] := not_not.mp hnil
    obtain ⟨herase, hdata⟩ := parseMessage_outData w.buffer_ data
    rw [drain_last h hnil]
    exact drained_last (fun hpos => (hdata hpos).symm.trans hnil)
      (shiftStringLeft_suffix w.buffer_ (parseMessage w.buffer_ data).1)
  | case3 w data h =>
    obtain ⟨herase, -⟩ := parseMessage_outData w.buffer_ data
    rw [herase] at h
    rw [drain_done (by rwa [herase])]
    exact drained_last (fun hpos => absurd hpos h) List.suffix_rfl

theorem onMessage_calls (w : TcpSessionWrapper) (message : Bytes) (received : Nat) :
    Drained { w with buffer_ := w.buffer_ ++ message } (w.onMessage message)
      (drainCalls received (w.buffer_ ++ message)) received :=
  drain_calls _ _ _

/-- The messages of a run, and where its buffers are in the stream. -/
theorem calls_run {before : Bytes} {w : TcpSessionWrapper} (hw : w.buffer_ <:+ before)
    (segments : List Bytes) :
    (segments.foldl onMessage w).processed =
        w.processed ++ (calls before.length w segments).filterMap Call.handed ∧
      ∀ c ∈ calls before.length w segments,
        ∃ later, (before ++ segments.flatten).drop c.offset = c.buffer ++ later := by
  induction segments generalizing before w with
  | nil => exact ⟨by simp [calls], fun c hc => by cases hc⟩
  | cons message segments ih =>
    obtain ⟨hprocessed, hleft, hcalls⟩ := onMessage_calls w message (before ++ message).length
    dsimp only at hprocessed hleft hcalls
    have hsuffix : w.buffer_ ++ message <:+ before ++ message := by
      obtain ⟨pre, rfl⟩ := hw
      exact ⟨pre, by rw [List.append_assoc]⟩
    obtain ⟨hrun, hlater⟩ := ih (hleft.trans hsuffix)
    rw [List.foldl_cons, hrun, hprocessed, calls, List.flatten_cons, ← List.append_assoc,
      ← List.length_append]
    refine ⟨by rw [List.filterMap_append, List.append_assoc], fun c hc => ?_⟩
    rcases List.mem_append.mp hc with hc | hc
    · obtain ⟨hs, ho⟩ := hcalls c hc
      obtain ⟨pre, hpre⟩ := hs.trans hsuffix
      refine ⟨segments.flatten, ?_⟩
      rw [ho, ← hpre, List.length_append, Nat.add_sub_cancel_right, List.append_assoc,
        List.drop_left]
    · exact hlater c hc

/-- A stream of less than 2³² bytes has no colon that is out of sight. -/
theorem colon_near {segments : List Bytes} (h : segments.flatten.length < 2 ^ 32) :
    ∀ c ∈ calls 0 start segments, ∀ header rest, c.buffer = header ++ 58 :: rest → 58 ∉ header →
      header.length < 2 ^ 32 := by
  intro c hc header rest hbuffer _
  obtain ⟨-, hlater⟩ := calls_run (show start.buffer_ <:+ [] from List.suffix_rfl) segments
  obtain ⟨later, hlater⟩ := hlater c hc
  have hlen := congrArg List.length hlater
  rw [hbuffer, List.nil_append, List.length_drop, List.length_append, List.length_append,
    List.length_cons] at hlen
  omega

/-- Whatever arrives, in any segments: the messages handed on are those of the calls, and each
call takes what its header announces, and erases no more than there is, if and only if no call
takes a message early. -/
theorem frames_announced_iff (segments : List Bytes)
    (hcolon : ∀ c ∈ calls 0 start segments, ∀ header rest, c.buffer = header ++ 58 :: rest →
      58 ∉ header → header.length < 2 ^ 32) :
    (segments.foldl onMessage start).processed =
        (calls 0 start segments).filterMap Call.handed ∧
      ((∀ c ∈ calls 0 start segments, c.Announced segments.flatten) ↔
        ∀ c ∈ calls 0 start segments, ¬ Early c.buffer) := by
  obtain ⟨hprocessed, hlater⟩ := calls_run (show start.buffer_ <:+ [] from List.suffix_rfl) segments
  refine ⟨hprocessed, forall_congr' fun c => forall_congr' fun hc => ?_⟩
  rw [← erase_le_iff (hcolon c hc)]
  refine and_iff_left_of_imp fun hle data hdata => ?_
  obtain ⟨hpos, hne, hdata⟩ := of_handed hdata
  obtain ⟨header, rest, hbuffer, hh, hlength⟩ := taken (hcolon c hc) hle hpos hdata hne
  obtain ⟨later, hlater⟩ := hlater c hc
  refine ⟨header, rest ++ later, ?_, hh, hlength⟩
  rw [← List.nil_append segments.flatten, hlater, hbuffer]
  simp only [List.append_assoc, List.cons_append]

theorem frames_announced_iff_cut :
    ([str "5:ab", str "cdex:y", str "2:"].foldl onMessage start).processed =
        (calls 0 start [str "5:ab", str "cdex:y", str "2:"]).filterMap Call.handed ∧
      ((∀ c ∈ calls 0 start [str "5:ab", str "cdex:y", str "2:"], c.Announced (str "5:abcdex:y2:")) ↔
        ∀ c ∈ calls 0 start [str "5:ab", str "cdex:y", str "2:"], ¬ Early c.buffer) :=
  frames_announced_iff [str "5:ab", str "cdex:y", str "2:"] (colon_near (by decide))

/-! ### A header with a NUL byte -/

def nulHeader : Bytes := [53, 0, 120, 120, 58, 97, 98]

theorem parseMessage_nulHeader : parseMessage nulHeader [] = (10, str "ab") := by decide

theorem drainCalls_nulHeader : drainCalls 7 nulHeader = [⟨0, nulHeader⟩, ⟨7, []⟩] := by
  have hpos : 0 < (parseMessage nulHeader []).1 := by rw [parseMessage_nulHeader]; decide
  have hne : (parseMessage nulHeader []).2 ≠ [] := by rw [parseMessage_nulHeader]; decide
  have hrest : StringUtils.shiftStringLeft nulHeader (parseMessage nulHeader []).1 = [] := by
    rw [parseMessage_nulHeader]
    rfl
  have hlast : 0 < (parseMessage [] []).1 → (parseMessage [] []).2 = [] := fun _ => rfl
  rw [drainCalls_take hpos hne, hrest, drainCalls_last hlast]
  rfl

/-- Both bytes are handed on as the message, and three more are erased than there are. -/
theorem nulHeader_taken_early :
    (start.onMessage nulHeader).processed = [str "ab"] ∧
      calls 0 start [nulHeader] = [⟨0, nulHeader⟩, ⟨7, []⟩] ∧
      atoi (cStr [53, 0, 120, 120]) = 5 ∧ (parseMessage nulHeader []).1 = 10 ∧
      ¬ Call.Announced nulHeader ⟨0, nulHeader⟩ := by
  have hcalls : calls 0 start [nulHeader] = [⟨0, nulHeader⟩, ⟨7, []⟩] := by
    rw [← drainCalls_nulHeader]
    exact List.append_nil _
  have hhanded : Call.handed ⟨0, nulHeader⟩ = some (str "ab") ∧ Call.handed ⟨7, []⟩ = none := by
    decide
  refine ⟨?_, hcalls, by decide, by rw [parseMessage_nulHeader], fun h => ?_⟩
  · have hrun := (onMessage_calls start nulHeader 7).processed
    rw [show start.buffer_ ++ nulHeader = nulHeader from rfl, drainCalls_nulHeader,
      List.filterMap_cons_some hhanded.1, List.filterMap_cons_none hhanded.2] at hrun
    exact hrun
  · have hle := h.1
    rw [parseMessage_nulHeader] at hle
    exact absurd hle (by decide)

end Flingd.Platform.TcpSessionWrapper
