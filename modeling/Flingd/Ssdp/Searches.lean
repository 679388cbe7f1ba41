import Flingd.Ssdp.SSDPServer

/-! Which searches are answered. The names of the headers are looked up as they are written, with what
stands before the colon, and it is `MAN` that may ask for all. -/
namespace Flingd.Ssdp
open Platform (isSpace)
open SSDPServer (isQuote)

structure Header where
  before : Bytes
  name : Bytes
  between : Bytes
  after : Bytes
  value : Bytes
  behind : Bytes
  blanks : ∀ c ∈ before ++ between ++ after ++ behind, c = 32 ∨ c = 9
  named : name ≠ []
  noColon : 58 ∉ name
  tightName : Tight isSpace name
  tightValue : Tight isSpace value
  oneLine : ¬ crlf <:+: before ++ name ++ between ++ 58 :: (after ++ value ++ behind)

namespace Header

def line (h : Header) : Bytes :=
  h.before ++ h.name ++ h.between ++ 58 :: (h.after ++ h.value ++ h.behind)

def key (h : Header) : Bytes := h.name ++ h.between

def reads (h : Header) : Bytes :=
  trimIf isQuote ((h.after ++ h.value ++ h.behind).rdropWhile isSpace)

def Exact (name : String) (h : Header) : Prop := h.name = str name ∧ h.between = []

def Is (name : String) (h : Header) : Prop := iequals h.name (str name) = true

instance (name : String) (h : Header) : Decidable (h.Exact name) :=
  inferInstanceAs (Decidable (_ ∧ _))

instance (name : String) (h : Header) : Decidable (h.Is name) := inferInstanceAs (Decidable (_ = _))

end Header

def datagram (command : Bytes) (headers : List Header) (empty : Nat) : Bytes :=
  joinCrlf (command :: headers.map Header.line ++ List.replicate empty [])

/-- No two headers have one name. -/
def Distinct (headers : List Header) : Prop :=
  headers.Pairwise fun h h' => iequals h.name h'.name = false

/-- The headers are found, and `MAN` asks for all or discovers the target. -/
def Answers (headers : List Header) : Prop :=
  (∃ mx ∈ headers, mx.Exact "MX") ∧ ∃ man ∈ headers, man.Exact "MAN" ∧ ∃ st ∈ headers, st.Exact "ST" ∧
    (man.reads = str "ssdp:all" ∨
      man.reads = str "ssdp:discover" ∧ st.reads = flintSearchTarget)

instance (headers : List Header) : Decidable (Answers headers) := inferInstanceAs (Decidable (_ ∧ _))

def Should (headers : List Header) : Prop :=
  (∃ mx ∈ headers, mx.Is "MX") ∧
  (∃ man ∈ headers, man.Is "MAN" ∧
    (man.value = str "ssdp:discover" ∨ man.value = str "\"ssdp:discover\"")) ∧
  ∃ st ∈ headers, st.Is "ST" ∧ (st.value = flintSearchTarget ∨ st.value = str "ssdp:all")

instance (headers : List Header) : Decidable (Should headers) := inferInstanceAs (Decidable (_ ∧ _))

/-- The names are in capitals right before the colons, no tab stands behind a colon, and `ST` is the
target. -/
def Plain (headers : List Header) : Prop :=
  (∃ mx ∈ headers, mx.Exact "MX") ∧ (∃ man ∈ headers, man.Exact "MAN" ∧ 9 ∉ man.after) ∧
  ∃ st ∈ headers, st.Exact "ST" ∧ 9 ∉ st.after ∧ st.value = flintSearchTarget

/-- `MAN` asks for all, or a value has blanks and quotes at its ends that are no part of it. -/
def Misled (headers : List Header) : Prop :=
  (∃ mx ∈ headers, mx.Exact "MX") ∧ ∃ man ∈ headers, man.Exact "MAN" ∧ ∃ st ∈ headers, st.Exact "ST" ∧
    (man.reads = str "ssdp:all" ∨
      man.reads = str "ssdp:discover" ∧ st.reads = flintSearchTarget ∧
        ¬ ((man.value = str "ssdp:discover" ∨ man.value = str "\"ssdp:discover\"") ∧
          st.value = flintSearchTarget))

/-! ### What is stored -/

theorem isSpace_of_blank {c : UInt8} (h : c = 32 ∨ c = 9) : isSpace c = true := by
  rcases h with rfl | rfl <;> decide

namespace Header
variable (h : Header)

theorem blank_before {c : UInt8} (hc : c ∈ h.before) : c = 32 ∨ c = 9 :=
  h.blanks c (by simp [hc])

theorem blank_between {c : UInt8} (hc : c ∈ h.between) : c = 32 ∨ c = 9 :=
  h.blanks c (by simp [hc])

theorem blank_after {c : UInt8} (hc : c ∈ h.after) : c = 32 ∨ c = 9 :=
  h.blanks c (by simp [hc])

theorem blank_behind {c : UInt8} (hc : c ∈ h.behind) : c = 32 ∨ c = 9 :=
  h.blanks c (by simp [hc])

theorem trimIf_line : trimIf isSpace h.line =
    h.key ++ 58 :: (h.after ++ h.value ++ h.behind).rdropWhile isSpace := by
  obtain ⟨c, name, hname⟩ := List.exists_cons_of_ne_nil h.named
  have hc : isSpace c = false := h.tightName.1 c (by rw [hname]; rfl)
  have hdrop : h.line.dropWhile isSpace = h.key ++ 58 :: (h.after ++ h.value ++ h.behind) := by
    rw [line, List.append_assoc h.before, List.append_assoc h.before,
      List.dropWhile_append_of_pos fun c hc => isSpace_of_blank (h.blank_before hc), key, hname]
    exact List.dropWhile_cons_of_neg (Bool.eq_false_iff.mp hc)
  rw [trimIf, hdrop]
  exact rdropWhile_append_cons (by decide) _ _

theorem noColon_key : 58 ∉ h.key := by
  rw [key, List.mem_append]
  rintro (hin | hin)
  · exact h.noColon hin
  · exact absurd (h.blank_between hin) (by decide)

end Header

theorem readLine_header (vars : StdMap Bytes Bytes) (h : Header) :
    SSDPServer.readLine vars h.line = vars.insert h.key h.reads := by
  have hlength : 0 < h.line.length := by
    rw [Header.line, List.length_append, List.length_cons]
    omega
  generalize hrest : (h.after ++ h.value ++ h.behind).rdropWhile isSpace = rest
  obtain ⟨part, parts, hparts⟩ : ∃ part parts, split 58 rest = part :: parts :=
    List.exists_cons_of_ne_nil (List.splitOn_ne_nil 58 rest)
  have hsplit : split 58 (trimIf isSpace h.line) = h.key :: part :: parts := by
    rw [h.trimIf_line, hrest, split_cons h.noColon_key, hparts]
  have hjoin : join 58 (part :: parts) = rest := by rw [← hparts, join_split]
  unfold SSDPServer.readLine
  rw [if_pos hlength, hsplit, Header.reads, hrest, ← hjoin]

theorem foldl_readLine (headers : List Header) (empty : Nat) (vars : StdMap Bytes Bytes) :
    (headers.map Header.line ++ List.replicate empty []).foldl SSDPServer.readLine vars =
      headers.foldl (fun vars h => vars.insert h.key h.reads) vars := by
  have hempty (vars : StdMap Bytes Bytes) :
      (List.replicate empty []).foldl SSDPServer.readLine vars = vars := by
    induction empty with
    | zero => rfl
    | succ n ih => exact ih
  rw [List.foldl_append, hempty, List.foldl_map]
  simp only [readLine_header]

/-! ### What is answered -/

section Searches
variable {headers : List Header}

theorem Distinct.eq (hd : Distinct headers) {h h' : Header} (hh : h ∈ headers) (hh' : h' ∈ headers)
    (hname : iequals h.name h'.name = true) : h = h' := by
  have hpairs : headers.Pairwise fun h h' => h = h' ∨ iequals h.name h'.name = false :=
    hd.imp .inr
  have hsymm : Std.Symm fun h h' : Header => h = h' ∨ iequals h.name h'.name = false := by
    refine ⟨fun h h' hor => ?_⟩
    rcases hor with rfl | hne
    · exact .inl rfl
    · exact .inr (by rwa [iequals_comm])
  rcases hpairs.forall_of_forall (fun _ _ => .inl rfl) hh hh' with heq | hne
  · exact heq
  · rw [hname] at hne
    cases hne

theorem Distinct.eq_of_is (hd : Distinct headers) {name : String} {h h' : Header} (hh : h ∈ headers)
    (hh' : h' ∈ headers) (his : h.Is name) (his' : h'.Is name) : h = h' :=
  hd.eq hh hh' (iequals_iff.mpr ((iequals_iff.mp his).trans (iequals_iff.mp his').symm))

theorem Header.Exact.is {name : String} {h : Header} (he : h.Exact name) : h.Is name := by
  rw [Header.Is, he.1, iequals_refl]

/-- The key is a name without a blank at its end where the header is written exactly so. -/
theorem Header.key_eq_iff (h : Header) {name : String} (htight : Tight isSpace (str name)) :
    h.key = str name ↔ h.Exact name := by
  constructor
  · intro hkey
    by_cases hbetween : h.between = []
    · refine ⟨?_, hbetween⟩
      rw [← hkey, Header.key, hbetween, List.append_nil]
    · obtain ⟨init, c, hc⟩ := List.eq_nil_or_concat h.between |>.resolve_left hbetween
      have hlast : c ∈ (str name).getLast? := by
        rw [← hkey, Header.key, hc, List.concat_eq_append, ← List.append_assoc]
        simp
      have hspace := isSpace_of_blank (h.blank_between (by rw [hc]; simp : c ∈ h.between))
      rw [htight.2 c hlast] at hspace
      cases hspace
  · rintro ⟨hname, hbetween⟩
    rw [Header.key, hname, hbetween, List.append_nil]

/-- What is found under a name. -/
theorem scan_headers (headers : List Header) (name : String) (htight : Tight isSpace (str name)) :
    (headers.foldl (fun vars h => vars.insert h.key h.reads) StdMap.empty).scan (str name = ·) =
      (headers.find? fun h => h.Exact name).map fun h => (str name, h.reads) := by
  have hfind : (fun h : Header => decide (h.key = str name)) = fun h => decide (h.Exact name) :=
    funext fun h => decide_eq_decide.mpr (h.key_eq_iff htight)
  rw [StdMap.scan_foldl_insert, hfind]
  rfl

theorem mem_of_find_exact {name : String} {h : Header}
    (hfind : (headers.find? fun h => h.Exact name) = some h) : h ∈ headers ∧ h.Exact name := by
  have hexact := List.find?_some hfind
  exact ⟨List.mem_of_find?_eq_some hfind, of_decide_eq_true hexact⟩

theorem Distinct.find_exact (hd : Distinct headers) {name : String} {h : Header} (hh : h ∈ headers)
    (he : h.Exact name) : (headers.find? fun h => h.Exact name) = some h := by
  have hsome : (headers.find? fun h => h.Exact name).isSome = true :=
    List.find?_isSome.mpr ⟨h, hh, decide_eq_true he⟩
  obtain ⟨h', hfind⟩ := Option.isSome_iff_exists.mp hsome
  obtain ⟨hh', he'⟩ := mem_of_find_exact hfind
  rw [hfind, hd.eq_of_is hh' hh he'.is he.is]

def Found (vars : StdMap Bytes Bytes) : Prop :=
  ∃ man mx st, vars.scan (str "MAN" = ·) = some man ∧ vars.scan (str "MX" = ·) = some mx ∧
    vars.scan (str "ST" = ·) = some st ∧
    (str "ssdp:all" = man.2 ∨ str "ssdp:discover" = man.2 ∧ flintSearchTarget = st.2)

theorem size_of_scan {vars : StdMap Bytes Bytes} {p : Bytes → Bool} {e : Bytes × Bytes}
    (h : vars.scan p = some e) : 0 < vars.size :=
  List.length_pos_of_mem (StdMap.scan_some h).1

theorem onSearch_found (s : SSDPServer) {ip message : Bytes} (date : Bytes) (hip : ip ≠ [])
    (h : Found ((splitCrlf message).tail.foldl SSDPServer.readLine .empty)) :
    s.onSearch ip date message = [s.joinMessage ip date false] := by
  obtain ⟨man, mx, st, hman, hmx, hst, hcase⟩ := h
  have hknown : iequals ip [] = false := by
    rw [Bool.eq_false_iff, Ne, iequals_iff, List.map_nil, List.map_eq_nil_iff]
    exact hip
  unfold SSDPServer.onSearch
  simp only [if_pos (size_of_scan hman), hman, hmx, hst, if_pos hcase, hknown, Bool.false_eq_true,
    if_false]

theorem onSearch_not_found (s : SSDPServer) {ip message : Bytes} (date : Bytes)
    (h : ¬ Found ((splitCrlf message).tail.foldl SSDPServer.readLine .empty)) :
    s.onSearch ip date message = [] := by
  unfold SSDPServer.onSearch
  dsimp only
  split
  · split
    · next man mx st hman hmx hst =>
      rw [if_neg fun hcase => h ⟨man, mx, st, hman, hmx, hst, hcase⟩]
    · rfl
  · rfl

/-- What is found of a search. -/
theorem found_iff (hd : Distinct headers) :
    Found (headers.foldl (fun vars h => vars.insert h.key h.reads) .empty) ↔ Answers headers := by
  have hman := scan_headers headers "MAN" (by decide)
  have hmx := scan_headers headers "MX" (by decide)
  have hst := scan_headers headers "ST" (by decide)
  unfold Found Answers
  rw [hman, hmx, hst]
  constructor
  · rintro ⟨_, _, _, hfoundMan, hfoundMx, hfoundSt, hcase⟩
    obtain ⟨man, hman, rfl⟩ := Option.map_eq_some_iff.mp hfoundMan
    obtain ⟨mx, hmx, rfl⟩ := Option.map_eq_some_iff.mp hfoundMx
    obtain ⟨st, hst, rfl⟩ := Option.map_eq_some_iff.mp hfoundSt
    obtain ⟨hinMan, heMan⟩ := mem_of_find_exact hman
    obtain ⟨hinSt, heSt⟩ := mem_of_find_exact hst
    refine ⟨⟨mx, mem_of_find_exact hmx⟩, man, hinMan, heMan, st, hinSt, heSt, ?_⟩
    exact hcase.imp Eq.symm (And.imp Eq.symm Eq.symm)
  · rintro ⟨⟨mx, hinMx, heMx⟩, man, hinMan, heMan, st, hinSt, heSt, hcase⟩
    rw [hd.find_exact hinMan heMan, hd.find_exact hinMx heMx, hd.find_exact hinSt heSt]
    exact ⟨_, _, _, rfl, rfl, rfl, hcase.imp Eq.symm (And.imp Eq.symm Eq.symm)⟩

theorem lines_datagram {command : Bytes} (headers : List Header) (empty : Nat)
    (hline : ¬ crlf <:+: command) : splitCrlf (datagram command headers empty) =
      command :: (headers.map Header.line ++ List.replicate empty []) := by
  refine splitCrlf_joinCrlf (List.cons_ne_nil _ _) ?_
  refine List.forall_mem_cons.mpr ⟨hline, fun line hin => ?_⟩
  rcases List.mem_append.mp hin with hin | hin
  · obtain ⟨h, -, rfl⟩ := List.mem_map.mp hin
    exact h.oneLine
  · rw [List.eq_of_mem_replicate hin]
    decide

theorem prefix_datagram (command : Bytes) (headers : List Header) (empty : Nat) :
    command <+: datagram command headers empty := by
  unfold datagram joinCrlf
  cases hlines : headers.map Header.line ++ List.replicate empty [] with
  | nil =>
    rw [List.cons_append, hlines, List.intercalate_singleton]
  | cons line lines =>
    rw [List.cons_append, hlines, List.intercalate_cons_cons]
    exact ⟨_, (List.append_assoc _ _ _).symm⟩

/-- A search is answered once, or not at all. -/
theorem parseMessage_datagram (s : SSDPServer) {ip command : Bytes} (date : Bytes) (empty : Nat)
    (hd : Distinct headers) (hip : ip ≠ []) (hsearch : str "M-SEARCH" <+: command)
    (hline : ¬ crlf <:+: command) :
    s.parseMessage ip date (datagram command headers empty) =
      if Answers headers then [s.joinMessage ip date false] else [] := by
  have hmessage : str "M-SEARCH" <+: datagram command headers empty :=
    hsearch.trans (prefix_datagram command headers empty)
  have hvars : (splitCrlf (datagram command headers empty)).tail.foldl SSDPServer.readLine .empty =
      headers.foldl (fun vars h => vars.insert h.key h.reads) .empty := by
    rw [lines_datagram headers empty hline, List.tail_cons, foldl_readLine]
  rw [SSDPServer.parseMessage, if_pos hmessage]
  split
  · next hanswers =>
    exact onSearch_found s date hip (by rwa [hvars, found_iff hd])
  · next hanswers =>
    exact onSearch_not_found s date (by rwa [hvars, found_iff hd])

/-! ### What should be answered -/

theorem Header.reads_eq {h : Header} (hvalue : h.value ≠ []) :
    h.reads = trimIf isQuote (h.after ++ h.value) := by
  obtain ⟨init, c, hc⟩ := (List.eq_nil_or_concat h.value).resolve_left hvalue
  have hlast : isSpace c = false := h.tightValue.2 c (by rw [hc]; simp)
  have hneg := Bool.eq_false_iff.mp hlast
  rw [Header.reads, rdropWhile_append_of_pos fun c hc => isSpace_of_blank (h.blank_behind hc), hc,
    List.concat_eq_append, ← List.append_assoc, List.rdropWhile_concat_neg _ _ _ hneg]

/-- Spaces before a value are trimmed, tabs are not. -/
theorem Header.reads_eq_iff {h : Header} (hvalue : h.value ≠ []) {v : Bytes} (hv : 9 ∉ v) :
    h.reads = v ↔ 9 ∉ h.after ∧ trimIf isQuote h.value = v := by
  rw [Header.reads_eq hvalue]
  by_cases htab : 9 ∈ h.after
  · refine iff_of_false (fun heq => hv ?_) fun hand => hand.1 htab
    rw [← heq]
    exact mem_trimIf (List.mem_append_left _ htab) (by decide)
  · have hspaces : ∀ c ∈ h.after, isQuote c = true := by
      intro c hc
      rcases h.blank_after hc with rfl | rfl
      · rfl
      · exact absurd hc htab
    rw [trimIf, List.dropWhile_append_of_pos hspaces, and_iff_right htab]
    rfl

/-- How the header is read that discovers. -/
theorem reads_discover {man : Header}
    (h : man.value = str "ssdp:discover" ∨ man.value = str "\"ssdp:discover\"") :
    man.reads ≠ str "ssdp:all" ∧ (man.reads = str "ssdp:discover" ↔ 9 ∉ man.after) := by
  have hne : man.value ≠ [] := by rcases h with h | h <;> rw [h] <;> decide
  have htrim : trimIf isQuote man.value = str "ssdp:discover" := by
    rcases h with h | h <;> rw [h] <;> decide
  rw [Ne, Header.reads_eq_iff hne (by decide), Header.reads_eq_iff hne (by decide), htrim]
  exact ⟨fun hall => absurd hall.2 (by decide), and_iff_left rfl⟩

theorem reads_target {st : Header} (h : st.value = flintSearchTarget ∨ st.value = str "ssdp:all") :
    st.reads = flintSearchTarget ↔ 9 ∉ st.after ∧ st.value = flintSearchTarget := by
  have hne : st.value ≠ [] := by rcases h with h | h <;> rw [h] <;> decide
  have htrim : trimIf isQuote st.value = st.value := by rcases h with h | h <;> rw [h] <;> decide
  rw [Header.reads_eq_iff hne (by decide), htrim]

theorem Misled.answers (h : Misled headers) : Answers headers := by
  obtain ⟨hmx, man, hinMan, heMan, st, hinSt, heSt, hcase⟩ := h
  exact ⟨hmx, man, hinMan, heMan, st, hinSt, heSt, hcase.imp_right fun hand => ⟨hand.1, hand.2.1⟩⟩

theorem Should.not_misled (hd : Distinct headers) (h : Should headers) : ¬ Misled headers := by
  rintro ⟨-, man, hinMan, heMan, st, hinSt, heSt, hcase⟩
  obtain ⟨-, ⟨man', hinMan', hisMan', hvalueMan⟩, st', hinSt', hisSt', hvalueSt⟩ := h
  obtain rfl := hd.eq_of_is hinMan hinMan' heMan.is hisMan'
  obtain rfl := hd.eq_of_is hinSt hinSt' heSt.is hisSt'
  rcases hcase with hall | ⟨-, htarget, hnot⟩
  · exact (reads_discover hvalueMan).1 hall
  · exact hnot ⟨hvalueMan, ((reads_target hvalueSt).mp htarget).2⟩

/-- A search that should be answered is where it is plainly written. -/
theorem Should.answers_iff (hd : Distinct headers) (h : Should headers) :
    Answers headers ↔ Plain headers := by
  obtain ⟨-, ⟨man, hinMan, hisMan, hvalueMan⟩, st, hinSt, hisSt, hvalueSt⟩ := h
  constructor
  · rintro ⟨hmx, man', hinMan', heMan, st', hinSt', heSt, hcase⟩
    obtain rfl := hd.eq_of_is hinMan hinMan' hisMan heMan.is
    obtain rfl := hd.eq_of_is hinSt hinSt' hisSt heSt.is
    obtain ⟨hdiscover, htarget⟩ := hcase.resolve_left (reads_discover hvalueMan).1
    exact ⟨hmx, ⟨man, hinMan, heMan, (reads_discover hvalueMan).2.mp hdiscover⟩, st, hinSt, heSt,
      (reads_target hvalueSt).mp htarget⟩
  · rintro ⟨hmx, ⟨man', hinMan', heMan, htabMan⟩, st', hinSt', heSt, hplain⟩
    obtain rfl := hd.eq_of_is hinMan hinMan' hisMan heMan.is
    obtain rfl := hd.eq_of_is hinSt hinSt' hisSt heSt.is
    exact ⟨hmx, man, hinMan, heMan, st, hinSt, heSt,
      .inr ⟨(reads_discover hvalueMan).2.mpr htabMan, (reads_target hvalueSt).mpr hplain⟩⟩

/-- A search that should not be answered is where it misleads. -/
theorem answers_iff_misled (h : ¬ Should headers) : Answers headers ↔ Misled headers := by
  refine ⟨?_, Misled.answers⟩
  rintro ⟨⟨mx, hinMx, heMx⟩, man, hinMan, heMan, st, hinSt, heSt, hcase⟩
  refine ⟨⟨mx, hinMx, heMx⟩, man, hinMan, heMan, st, hinSt, heSt, hcase.imp_right fun hand => ?_⟩
  refine ⟨hand.1, hand.2, fun ⟨hvalueMan, hvalueSt⟩ => h ?_⟩
  exact ⟨⟨mx, hinMx, heMx.is⟩, ⟨man, hinMan, heMan.is, hvalueMan⟩, st, hinSt, heSt.is, .inl hvalueSt⟩

theorem Answers.perm {headers' : List Header} (h : headers.Perm headers') :
    Answers headers ↔ Answers headers' := by
  unfold Answers
  simp only [h.mem_iff]

/-- The order of its headers makes no difference to a search; and it is answered as it should be where
one that should be answered is plainly written, and one that should not does not mislead. -/
theorem searches_answered_iff (s : SSDPServer) {ip command : Bytes} (date : Bytes)
    (hd : Distinct headers) (hip : ip ≠ []) (hsearch : str "M-SEARCH" <+: command)
    (hline : ¬ crlf <:+: command) (empty : Nat) :
    (∀ headers', headers.Perm headers' →
      s.parseMessage ip date (datagram command headers' empty) =
        s.parseMessage ip date (datagram command headers empty)) ∧
    (s.parseMessage ip date (datagram command headers empty) =
        (if Should headers then [s.joinMessage ip date false] else []) ↔
      (Should headers → Plain headers) ∧ ¬ Misled headers) := by
  constructor
  · intro headers' hperm
    have hd' : Distinct headers' :=
      (hperm.pairwise_iff fun {h h'} hne => by rwa [iequals_comm]).mp hd
    rw [parseMessage_datagram s date empty hd' hip hsearch hline,
      parseMessage_datagram s date empty hd hip hsearch hline]
    exact if_congr (Answers.perm hperm).symm rfl rfl
  rw [parseMessage_datagram s date empty hd hip hsearch hline]
  by_cases hshould : Should headers
  · rw [if_pos hshould, ite_eq_left_iff, hshould.answers_iff hd,
      and_iff_left (hshould.not_misled hd), imp_iff_right hshould]
    simp
  · rw [if_neg hshould, ite_eq_right_iff, answers_iff_misled hshould]
    simp [hshould]

/-! ### Searches that are misread -/

def Header.plain (name value : String) (named : str name ≠ [] := by decide)
    (noColon : 58 ∉ str name := by decide) (tightName : Tight isSpace (str name) := by decide)
    (tightValue : Tight isSpace (str value) := by decide)
    (oneLine : ¬ crlf <:+: [] ++ str name ++ [] ++ 58 :: ([32] ++ str value ++ []) := by decide) :
    Header :=
  ⟨[], str name, [], [32], str value, [], fun _ hc => .inl (List.mem_singleton.mp hc), named, noColon,
    tightName, tightValue, oneLine⟩

def searchLine : Bytes := str "M-SEARCH * HTTP/1.1"

def searchTarget : List Header :=
  [.plain "MAN" "\"ssdp:discover\"", .plain "MX" "3",
    .plain "ST" "urn:dial-multiscreen-org:service:dial:1"]

def searchAll : List Header :=
  [.plain "MAN" "\"ssdp:discover\"", .plain "MX" "3", .plain "ST" "ssdp:all"]

theorem searches_answered_target :
    (SSDPServer.new (str "1")).parseMessage (str "10.0.0.1") (str "now")
        (datagram searchLine searchTarget 2) =
      [(SSDPServer.new (str "1")).joinMessage (str "10.0.0.1") (str "now") false] := by
  have hdistinct : Distinct searchTarget := by unfold Distinct; decide
  have hshould : Should searchTarget := by decide
  have hplain : Plain searchTarget := by unfold Plain; decide
  have hmisled : ¬ Misled searchTarget := by unfold Misled; decide
  have hip : str "10.0.0.1" ≠ [] := by decide
  have hsearch : str "M-SEARCH" <+: searchLine := by decide
  have hline : ¬ crlf <:+: searchLine := by decide
  have hiff := (searches_answered_iff (.new (str "1")) (str "now") hdistinct hip hsearch hline 2).2
  rw [hiff.mpr ⟨fun _ => hplain, hmisled⟩, if_pos hshould]

/-- A search for all is not answered. -/
theorem searchAll_not_answered : Distinct searchAll ∧ Should searchAll ∧
    (SSDPServer.new (str "1")).parseMessage (str "10.0.0.1") (str "now")
      (datagram searchLine searchAll 2) = [] := by
  have hdistinct : Distinct searchAll := by unfold Distinct; decide
  exact ⟨hdistinct, by decide, by decide +kernel⟩

end Searches
end Flingd.Ssdp
