import Flingd.Base.Decimal
import Flingd.Base.Regex
import Flingd.Http.UrlParser

/-! `UrlParser::parse`, and how it splits the target of a request. -/
namespace Flingd.Http
open Regex

inductive UrlGroup where
  | scheme
  | user
  | host
  | port
  | path
  | query
  | fragment
deriving DecidableEq

/-- All fields of `Url`. The port is not set where its text is empty. -/
structure UrlParts where
  scheme : Bytes
  user : Bytes
  host : Bytes
  port : Option Nat
  path : Bytes
  query : Bytes
  fragment : Bytes
deriving DecidableEq

def UrlParts.url (parts : UrlParts) : Url := ⟨parts.path, parts.query⟩

namespace UrlParser

def isLetter (c : UInt8) : Bool := 65 ≤ c && c ≤ 90 || 97 ≤ c && c ≤ 122

def isSchemeChar (c : UInt8) : Bool := isLetter c || isDigit c || c = 43 || c = 46 || c = 45

def isHostChar (c : UInt8) : Bool := isLetter c || isDigit c || c = 46 || c = 45

def isSlash (c : UInt8) : Bool := c = 47 || c = 92

def isPathChar (c : UInt8) : Bool := c ≠ 63 && c ≠ 35

/-! ### The expression -/

/-- `((?<scheme>[a-zA-Z][a-zA-Z0-9+.-]*)://)?`, without the `?`. -/
def schemeFormat : Regex UrlGroup UInt8 :=
  .seq (.group .scheme (.seq (one isLetter) (many isSchemeChar)))
    (.seq (one (· = 58)) (.seq (one (· = 47)) (one (· = 47))))

/-- `((?<user>[^@]*)@)?`, without the `?`. -/
def userFormat : Regex UrlGroup UInt8 := .seq (.group .user (many (· ≠ 64))) (one (· = 64))

/-- `(:(?<port>[\d]{1,5}))?`, without the `?`. -/
def portFormat : Regex UrlGroup UInt8 :=
  .seq (one (· = 58)) (.group .port (.units isDigit 1 (some 5)))

/-- `(?<path>[/\\][^?#]*)?`, without the `?`. -/
def pathFormat : Regex UrlGroup UInt8 := .group .path (.seq (one isSlash) (many isPathChar))

/-- `(\?(?<query>[^#]*))?`, without the `?`. -/
def queryFormat : Regex UrlGroup UInt8 :=
  .seq (one (· = 63)) (.group .query (many (· ≠ 35)))

/-- `(#(?<fragment>.*))?`. -/
def fromFragment : Regex UrlGroup UInt8 :=
  .optional (.seq (one (· = 35)) (.group .fragment (many fun _ => true)))

def fromQuery : Regex UrlGroup UInt8 := .seq (.optional queryFormat) fromFragment

def fromPath : Regex UrlGroup UInt8 := .seq (.optional pathFormat) fromQuery

def fromPort : Regex UrlGroup UInt8 := .seq (.optional portFormat) fromPath

def fromHost : Regex UrlGroup UInt8 := .seq (.group .host (many isHostChar)) fromPort

def fromUser : Regex UrlGroup UInt8 := .seq (.optional userFormat) fromHost

def urlFormat : Regex UrlGroup UInt8 := .seq (.optional schemeFormat) fromUser

/-! ### The parser -/

/-- `replace_all` of `//` by `/`. -/
def mergeSlashes : Bytes → Bytes
  | 47 :: 47 :: s => 47 :: mergeSlashes s
  | c :: s => c :: mergeSlashes s
  | [] => []

def cleanPath (path : Bytes) : Bytes := mergeSlashes (path.map fun c => if c = 92 then 47 else c)

def parse (url_str : Bytes) : Option UrlParts :=
  match fullMatch urlFormat url_str with
  | none => none
  | some found =>
    let portString := capture found .port
    let path := capture found .path
    let query := capture found .query
    let fragment := capture found .fragment
    some
      { scheme := capture found .scheme
        user := capture found .user
        host := capture found .host
        port := if portString = [] then none else some (digitsValue portString)
        path := if path = [] ∧ (query ≠ [] ∨ fragment ≠ []) then str "/" else cleanPath path
        query := query
        fragment := fragment }

/-! ### From the end of the expression to its beginning -/

section
variable {c : UInt8} {s t q : Bytes}

theorem take_before {p : UInt8 → Bool} (s : Bytes) :
    s.take (s.length - (s.dropWhile p).length) = s.takeWhile p := by
  have hlen := congrArg List.length (List.takeWhile_append_dropWhile (p := p) (l := s))
  rw [List.length_append] at hlen
  have htake : s.length - (s.dropWhile p).length = (s.takeWhile p).length := by omega
  have happend : (s.takeWhile p ++ s.dropWhile p).take (s.takeWhile p).length = s.takeWhile p :=
    List.take_left
  rwa [List.takeWhile_append_dropWhile, ← htake] at happend

theorem fromFragment_cons (h : c ≠ 35) : fullMatch fromFragment (c :: s) = none := by
  rw [fromFragment, fullMatch_optional, fullMatch_seq, attempt_one_cons, if_neg (by simpa using h)]
  rfl

theorem fromFragment_hash (t : Bytes) : fullMatch fromFragment (35 :: t) = some [(.fragment, t)] := by
  have hall : t.dropWhile (fun _ => true) = [] := List.dropWhile_eq_nil_iff.mpr fun _ _ => rfl
  have hgroup : fullMatch (.group .fragment (many fun _ => true)) t =
      some [(UrlGroup.fragment, t)] := by
    refine (attempt_group _ _ _ _).trans ?_
    rw [attempt_many fun _ _ _ => rfl, hall]
    simp
  rw [fromFragment, fullMatch_optional, fullMatch_seq, attempt_one_cons,
    if_pos (decide_eq_true rfl), hgroup]
  rfl

theorem fromQuery_cons (hq : c ≠ 63) (hf : c ≠ 35) : fullMatch fromQuery (c :: s) = none := by
  rw [fromQuery, fullMatch_seq_optional, fromFragment_cons hf, fullMatch_seq, queryFormat,
    attempt_seq, attempt_one_cons, if_neg (by simpa using hq)]
  rfl

theorem fromQuery_question (t : Bytes) : fullMatch fromQuery (63 :: t) =
    (fullMatch fromFragment (t.dropWhile (· ≠ 35))).map ((.query, t.takeWhile (· ≠ 35)) :: ·) := by
  rw [fromQuery, fullMatch_seq_optional, fromFragment_cons (by decide), Option.or_none,
    fullMatch_seq, queryFormat, attempt_seq, attempt_one_cons, if_pos (decide_eq_true rfl),
    attempt_group, attempt_many]
  · rw [take_before]
    rfl
  · intro d s hd
    rw [fromFragment_cons (by simpa using hd)]
    rfl

/-- A query goes to the end where there is no fragment. -/
theorem fromQuery_query (h : 35 ∉ q) : fullMatch fromQuery (63 :: q) = some [(.query, q)] := by
  have hall : q.takeWhile (· ≠ 35) = q :=
    List.takeWhile_eq_self_iff.mpr fun c hc => decide_eq_true fun heq => h (heq ▸ hc)
  have hdrop : q.dropWhile (· ≠ 35) = [] :=
    List.dropWhile_eq_nil_iff.mpr fun c hc => decide_eq_true fun heq => h (heq ▸ hc)
  rw [fromQuery_question, hall, hdrop]
  rfl

theorem fromQuery_skip (h : ∀ d ∈ s.head?, d ≠ 63) :
    fullMatch fromQuery s = fullMatch fromFragment s := by
  rw [fromQuery, fullMatch_seq_optional, fullMatch_seq, queryFormat, attempt_seq]
  cases s with
  | nil => rfl
  | cons d s =>
    rw [attempt_one_cons, if_neg (by simpa using h d rfl)]
    rfl

theorem fromPath_skip (h : ∀ d ∈ s.head?, isSlash d = false) :
    fullMatch fromPath s = fullMatch fromQuery s := by
  rw [fromPath, fullMatch_seq_optional, fullMatch_seq, pathFormat, attempt_group, attempt_seq]
  cases s with
  | nil => rfl
  | cons d s =>
    rw [attempt_one_cons, if_neg (by simpa using h d rfl)]
    rfl

/-- A path goes up to the query. -/
theorem fromPath_path (h : isSlash c = true) : fullMatch fromPath (c :: s) =
    (fullMatch fromQuery (s.dropWhile isPathChar)).map
      ((.path, c :: s.takeWhile isPathChar) :: ·) := by
  have hc : c ≠ 63 ∧ c ≠ 35 := by
    constructor <;>
      · rintro rfl
        exact absurd h (by decide)
  rw [fromPath, fullMatch_seq_optional, fromQuery_cons hc.1 hc.2, Option.or_none, fullMatch_seq,
    pathFormat, attempt_group, attempt_seq, attempt_one_cons, if_pos h, attempt_many]
  · have hlen : (s.dropWhile isPathChar).length ≤ s.length := (List.dropWhile_suffix _).length_le
    rw [List.length_cons, Nat.succ_sub hlen, List.take_succ_cons, take_before]
    rfl
  · intro d s hd
    rw [isPathChar, Bool.and_eq_true, decide_eq_true_eq, decide_eq_true_eq] at hd
    rw [fromQuery_cons hd.1 hd.2]
    rfl

theorem fromPath_cons (hc : isSlash c = false) (hq : c ≠ 63) (hf : c ≠ 35) :
    fullMatch fromPath (c :: s) = none := by
  rw [fromPath_skip (by simpa using hc), fromQuery_cons hq hf]

/-- What a path, a query or a fragment begins with is in no other class. -/
theorem outside {p : UInt8 → Bool} (hp : p 47 = false ∧ p 92 = false ∧ p 63 = false ∧ p 35 = false)
    (hc : p c = true) : isSlash c = false ∧ c ≠ 63 ∧ c ≠ 35 := by
  have hne {d : UInt8} (hd : p d = false) : c ≠ d := by
    rintro rfl
    rw [hc] at hd
    cases hd
  exact ⟨by simp [isSlash, hne hp.1, hne hp.2.1], hne hp.2.2.1, hne hp.2.2.2⟩

theorem fromPort_colon (t : Bytes) : fullMatch fromPort (58 :: t) =
    if 1 ≤ (t.takeWhile isDigit).length ∧ (t.takeWhile isDigit).length ≤ 5 then
      (fullMatch fromPath (t.dropWhile isDigit)).map ((.port, t.takeWhile isDigit) :: ·)
    else none := by
  rw [fromPort, fullMatch_seq_optional, fullMatch_seq, portFormat, attempt_seq,
    fromPath_cons (by decide) (by decide) (by decide), Option.or_none, attempt_one_cons,
    if_pos (decide_eq_true rfl), attempt_group, attempt_units]
  · simp only [Option.mem_def, Option.some.injEq, forall_eq', take_before]
    rfl
  · intro d t hd
    obtain ⟨h₁, h₂, h₃⟩ := outside (by decide) hd
    rw [fromPath_cons h₁ h₂ h₃]
    rfl

theorem fromPort_cons (hc : isSlash c = false) (hp : c ≠ 58) (hq : c ≠ 63) (hf : c ≠ 35) :
    fullMatch fromPort (c :: s) = none := by
  rw [fromPort, fullMatch_seq_optional, fromPath_cons hc hq hf, fullMatch_seq, portFormat,
    attempt_seq, attempt_one_cons, if_neg (by simpa using hp)]
  rfl

theorem fromPort_skip (h : ∀ d ∈ s.head?, d ≠ 58) :
    fullMatch fromPort s = fullMatch fromPath s := by
  rw [fromPort, fullMatch_seq_optional, fullMatch_seq, portFormat, attempt_seq]
  cases s with
  | nil => rfl
  | cons d s =>
    rw [attempt_one_cons, if_neg (by simpa using h d rfl)]
    rfl

theorem fromHost_eq (s : Bytes) : fullMatch fromHost s =
    (fullMatch fromPort (s.dropWhile isHostChar)).map ((.host, s.takeWhile isHostChar) :: ·) := by
  rw [fromHost, fullMatch_seq, attempt_group, attempt_many]
  · rw [take_before]
    rfl
  · intro d t hd
    obtain ⟨h₁, h₂, h₃⟩ := outside (by decide) hd
    have hcolon : d ≠ 58 := by
      rintro rfl
      exact absurd hd (by decide)
    rw [fromPort_cons h₁ hcolon h₂ h₃]
    rfl

/-- What stands behind the first `@`, if there is one. -/
def behindAt (s : Bytes) : Option Bytes := (s.dropWhile (· ≠ 64)).tail?

/-- A user ends at the first `@`, and is there only where a host may follow. -/
theorem fromUser_eq (s : Bytes) : fullMatch fromUser s =
    ((behindAt s).bind fun t =>
      (fullMatch fromHost t).map ((.user, s.takeWhile (· ≠ 64)) :: ·)).or (fullMatch fromHost s) := by
  rw [fromUser, fullMatch_seq_optional, fullMatch_seq, userFormat, attempt_seq, attempt_group,
    attempt_many]
  · rw [take_before, behindAt]
    cases hdrop : s.dropWhile (· ≠ 64) with
    | nil => rfl
    | cons d t =>
      have hd : d = 64 := by
        have hhead := List.head?_dropWhile_not (· ≠ 64) s
        rw [hdrop] at hhead
        simpa using hhead
      rw [attempt_one_cons, if_pos (decide_eq_true hd)]
      rfl
  · intro d t hd
    rw [attempt_one_cons, if_neg (by simpa using hd)]

theorem urlFormat_slash (s : Bytes) :
    fullMatch urlFormat (47 :: s) = fullMatch fromUser (47 :: s) := by
  rw [urlFormat, fullMatch_seq_optional, fullMatch_seq, schemeFormat, attempt_seq, attempt_group,
    attempt_seq, attempt_one_cons]
  rfl

/-! ### Where an authority may end -/

/-- Whether a path, a query or a fragment begins here, or nothing is left. -/
def opensTail : Bytes → Bool
  | [] => true
  | c :: _ => isSlash c || c = 63 || c = 35

def opensPort : Bytes → Bool
  | 58 :: s => 1 ≤ (s.takeWhile isDigit).length ∧ (s.takeWhile isDigit).length ≤ 5 ∧
      opensTail (s.dropWhile isDigit)
  | s => opensTail s

def opensHost (s : Bytes) : Bool := opensPort (s.dropWhile isHostChar)

/-- Whether what stands before the first `@` is taken for a user. -/
def hasUser (s : Bytes) : Bool := (behindAt s).any opensHost

theorem hasUser_of_notMem {s : Bytes} (h : 64 ∉ s) : hasUser s = false := by
  have hdrop : s.dropWhile (· ≠ 64) = [] :=
    List.dropWhile_eq_nil_iff.mpr fun c hc => decide_eq_true fun heq => h (heq ▸ hc)
  rw [hasUser, behindAt, hdrop]
  rfl

theorem fromFragment_isSome (s : Bytes) : (fullMatch fromFragment s).isSome =
    (s.isEmpty || s.head? = some 35) := by
  cases s with
  | nil => rfl
  | cons c s =>
    by_cases hc : c = 35
    · subst hc
      rw [fromFragment_hash]
      rfl
    · rw [fromFragment_cons hc]
      simp [hc]

/-- The character at which a row of units ends is not of the class. -/
theorem head_dropWhile {p : UInt8 → Bool} (h : s.dropWhile p = c :: t) : p c = false := by
  have hhead := List.head?_dropWhile_not p s
  rw [h] at hhead
  exact hhead

/-- A fragment follows where a query ends. -/
theorem fromFragment_behind (s : Bytes) :
    (fullMatch fromFragment (s.dropWhile (· ≠ 35))).isSome = true := by
  rw [fromFragment_isSome]
  cases hdrop : s.dropWhile (· ≠ 35) with
  | nil => rfl
  | cons c t =>
    have hc := head_dropWhile hdrop
    simpa using hc

theorem fromQuery_opens (s : Bytes) : (fullMatch fromQuery s).isSome =
    (s.isEmpty || s.head? = some 63 || s.head? = some 35) := by
  cases s with
  | nil => rfl
  | cons c s =>
    by_cases hc : c = 63
    · subst hc
      rw [fromQuery_question, Option.isSome_map, fromFragment_behind]
      rfl
    · rw [fromQuery_skip (by simpa using hc), fromFragment_isSome]
      simp [hc]

theorem fromPath_opens (s : Bytes) : (fullMatch fromPath s).isSome = opensTail s := by
  cases s with
  | nil => rfl
  | cons c s =>
    cases hslash : isSlash c with
    | true =>
      rw [fromPath_path hslash, Option.isSome_map, fromQuery_opens, opensTail, hslash]
      cases hdrop : s.dropWhile isPathChar with
      | nil => rfl
      | cons d t =>
        have hd := head_dropWhile hdrop
        by_cases hquery : d = 63
        · simp [hquery]
        · have hfragment : d = 35 := by simpa [isPathChar, hquery] using hd
          simp [hfragment]
    | false =>
      rw [fromPath_skip (by simpa using hslash), fromQuery_opens, opensTail, hslash]
      simp

theorem fromPort_opens (s : Bytes) : (fullMatch fromPort s).isSome = opensPort s := by
  by_cases hcolon : ∃ t, s = 58 :: t
  · obtain ⟨t, rfl⟩ := hcolon
    rw [fromPort_colon, opensPort]
    split_ifs with hlen
    · rw [Option.isSome_map, fromPath_opens]
      simp [hlen]
    · symm
      simp only [Option.isSome_none, decide_eq_false_iff_not]
      exact fun hends => hlen ⟨hends.1, hends.2.1⟩
  · have hopens : opensPort s = opensTail s := by
      unfold opensPort
      split
      · exact absurd ⟨_, rfl⟩ hcolon
      · rfl
    have hskip : ∀ d ∈ s.head?, d ≠ 58 := by
      rintro d hd rfl
      obtain ⟨t, rfl⟩ := List.head?_eq_some_iff.mp hd
      exact hcolon ⟨t, rfl⟩
    rw [fromPort_skip hskip, fromPath_opens, hopens]

theorem fromHost_opens (s : Bytes) : (fullMatch fromHost s).isSome = opensHost s := by
  rw [fromHost_eq, Option.isSome_map, fromPort_opens]
  rfl

theorem fromUser_host (huser : hasUser s = false) : fullMatch fromUser s = fullMatch fromHost s := by
  rw [fromUser_eq]
  cases hat : behindAt s with
  | none => rfl
  | some t =>
    rw [hasUser, hat, Option.any_some, ← fromHost_opens, Option.isSome_eq_false_iff,
      Option.isNone_iff_eq_none] at huser
    rw [Option.bind_some, huser]
    rfl

theorem fromUser_user (huser : hasUser s = true) :
    ∃ found, fullMatch fromUser s = some ((.user, s.takeWhile (· ≠ 64)) :: found) := by
  obtain ⟨t, hat, hopens⟩ := (Option.any_eq_true _ _).mp huser
  rw [← fromHost_opens] at hopens
  obtain ⟨found, hfound⟩ := Option.isSome_iff_exists.mp hopens
  refine ⟨found, ?_⟩
  rw [fromUser_eq, hat, Option.bind_some, hfound]
  rfl

end

/-! ### Targets -/

/-- `/p` or `/p?q`. -/
def target (p : Bytes) (query : Option Bytes) : Bytes :=
  47 :: p ++ (query.map (63 :: ·)).getD []

structure IsTarget (p : Bytes) (query : Option Bytes) : Prop where
  path : ∀ c ∈ p, c ≠ 63 ∧ c ≠ 35 ∧ c ≠ 10 ∧ c ≠ 13
  query : ∀ q ∈ query, ∀ c ∈ q, c ≠ 35 ∧ c ≠ 10 ∧ c ≠ 13

def SplitsAtQuery (p : Bytes) (query : Option Bytes) : Prop :=
  ∃ parts, parse (target p query) = some parts ∧ parts.scheme = [] ∧ parts.user = [] ∧
    parts.host = [] ∧ parts.path = cleanPath (47 :: p) ∧ parts.query = query.getD []

section
variable {p : Bytes} {query : Option Bytes}

/-- Without a user there is neither a host nor a port. -/
theorem fromHost_target (h : IsTarget p query) : fullMatch fromHost (target p query) =
    some ((.host, []) :: (.path, 47 :: p) :: (query.map (.query, ·)).toList) := by
  have hpath : ∀ c ∈ p, isPathChar c = true := fun c hc => by
    simp [isPathChar, (h.path c hc).1, (h.path c hc).2.1]
  have hhead : target p query = 47 :: (p ++ (query.map (63 :: ·)).getD []) := rfl
  rw [fromHost_eq, hhead, List.dropWhile_cons_of_neg (by decide),
    List.takeWhile_cons_of_neg (by decide),
    fromPort_skip (by simp), fromPath_path (by decide), List.takeWhile_append_of_pos hpath,
    List.dropWhile_append_of_pos hpath]
  cases query with
  | none =>
    simp only [Option.map_none, Option.getD_none, List.takeWhile_nil, List.dropWhile_nil,
      List.append_nil]
    rfl
  | some q =>
    have hq : 35 ∉ q := fun hmem => (h.query q rfl 35 hmem).1 rfl
    rw [Option.map_some, Option.getD_some, List.takeWhile_cons_of_neg (by decide),
      List.dropWhile_cons_of_neg (by decide), fromQuery_query hq, List.append_nil]
    rfl

theorem urlFormat_target (p : Bytes) (query : Option Bytes) :
    fullMatch urlFormat (target p query) = fullMatch fromUser (target p query) :=
  urlFormat_slash _

theorem parse_target (h : IsTarget p query) (huser : hasUser (target p query) = false) :
    parse (target p query) =
      some ⟨[], [], [], none, cleanPath (47 :: p), query.getD [], []⟩ := by
  unfold parse
  rw [urlFormat_target, fromUser_host huser, fromHost_target h]
  cases query <;> rfl

/-- The user of a target begins with its slash. -/
theorem parse_user (huser : hasUser (target p query) = true)
    {parts : UrlParts} (hparts : parse (target p query) = some parts) : parts.user ≠ [] := by
  obtain ⟨found, hfound⟩ := fromUser_user huser
  unfold parse at hparts
  rw [urlFormat_target, hfound] at hparts
  cases hparts
  have hcapture : capture ((UrlGroup.user, (target p query).takeWhile (· ≠ 64)) :: found) .user =
      (target p query).takeWhile (· ≠ 64) := rfl
  rw [hcapture, target, List.cons_append, List.takeWhile_cons_of_pos (by decide)]
  exact List.cons_ne_nil _ _

/-- Only an `@` that a host seems to follow splits a target elsewhere. -/
theorem target_split_iff (h : IsTarget p query) :
    SplitsAtQuery p query ↔ hasUser (target p query) = false := by
  constructor
  · rintro ⟨parts, hparts, -, hempty, -⟩
    by_contra huser
    exact parse_user ((Bool.not_eq_false _).mp huser) hparts hempty
  · intro huser
    exact ⟨_, parse_target h huser, rfl, rfl, rfl, rfl, rfl⟩

theorem target_split_iff_mail :
    SplitsAtQuery (str "peerjs") (some (str "key=peerjs&id=a@b&token=t")) ↔
      hasUser (target (str "peerjs") (some (str "key=peerjs&id=a@b&token=t"))) = false :=
  target_split_iff ⟨forall_of_all (by decide),
    fun q hq => Option.mem_some.mp hq ▸ forall_of_all (by decide)⟩

/-- A query ends up as the name of a user, and what follows the `@` as another path. -/
theorem query_read_as_user :
    IsTarget (str "x") (some (str "id=a@/peerjs")) ∧
    parse (target (str "x") (some (str "id=a@/peerjs"))) =
      some ⟨[], str "/x?id=a", [], none, str "/peerjs", [], []⟩ ∧
    ¬ SplitsAtQuery (str "x") (some (str "id=a@/peerjs")) := by
  have hparse : parse (target (str "x") (some (str "id=a@/peerjs"))) =
      some ⟨[], str "/x?id=a", [], none, str "/peerjs", [], []⟩ := by decide +kernel
  refine ⟨⟨forall_of_all (by decide), fun q hq => Option.mem_some.mp hq ▸ forall_of_all (by decide)⟩,
    hparse, ?_⟩
  rintro ⟨parts, hparts, -, huser, -⟩
  rw [hparse] at hparts
  cases hparts
  exact absurd huser (by decide)

end
end UrlParser
end Flingd.Http
