import Flingd.Base.Elements

/-! Text of XML with values filled in between fixed parts, and what is found in it by name. -/
namespace Flingd
namespace Xml
variable {s t u p v name : Text} {es es' : List Event} {keys : List Text}
  {ms ms' : List (Text × Text)}

/-! ### Elements by their names -/

mutual

/-- The elements with one of the names, in the order in which they begin. -/
def Node.named (keys : List Text) : Node → List Node
  | .char _ => []
  | .element name children =>
    (if name ∈ keys then [.element name children] else []) ++ namedOf keys children

def namedOf (keys : List Text) : List Node → List Node
  | [] => []
  | node :: nodes => node.named keys ++ namedOf keys nodes

end

theorem namedOf_append (nodes nodes' : List Node) :
    namedOf keys (nodes ++ nodes') = namedOf keys nodes ++ namedOf keys nodes' := by
  induction nodes with
  | nil => rfl
  | cons node nodes ih => rw [List.cons_append, namedOf, ih, namedOf, List.append_assoc]

theorem namedOf_chars (v : Text) : namedOf keys (v.map .char) = [] := by
  induction v with
  | nil => rfl
  | cons c v ih => rw [List.map_cons, namedOf, ih, Node.named, List.append_nil]

/-- Among the events those of elements with one of the names are those of these texts. -/
inductive Tells (keys : List Text) : List Event → List (Text × Text) → Prop
  | nil : Tells keys [] []
  | skip {e : Event} {es : List Event} {ms : List (Text × Text)}
    (he : ∀ name ∈ keys, e ≠ .start name) (h : Tells keys es ms) : Tells keys (e :: es) ms
  | text {name v : Text} {es : List Event} {ms : List (Text × Text)} (hname : name ∈ keys)
    (h : Tells keys es ms) :
    Tells keys (.start name :: (v.map .char ++ .stop name :: es)) ((name, v) :: ms)

theorem Tells.append (h : Tells keys es ms) (h' : Tells keys es' ms') :
    Tells keys (es ++ es') (ms ++ ms') := by
  induction h with
  | nil => exact h'
  | skip he _ ih => exact .skip he ih
  | text hname _ ih =>
    rw [List.cons_append, List.append_assoc, List.cons_append, List.cons_append]
    exact .text hname ih

mutual

theorem Node.tells (node : Node) {ms : List (Text × Text)}
    (h : node.named keys = ms.map textNode) : Tells keys node.events ms := by
  cases node with
  | char c =>
    rw [Node.named] at h
    obtain rfl : ms = [] := List.map_eq_nil_iff.mp h.symm
    rw [Node.events]
    exact .skip (by simp) .nil
  | element name children =>
    rw [Node.named] at h
    rw [events_element]
    split_ifs at h with hname
    · cases ms with
      | nil => cases h
      | cons m ms =>
        rw [List.map_cons, List.singleton_append, List.cons.injEq, textNode, Node.element.injEq] at h
        obtain ⟨⟨rfl, rfl⟩, hms⟩ := h
        rw [namedOf_chars] at hms
        obtain rfl : ms = [] := List.map_eq_nil_iff.mp hms.symm
        rw [eventsOf_chars]
        exact .text hname .nil
    · have hchildren := tells_of children (by simpa using h)
      have hstop : Tells keys [.stop name] [] := .skip (by simp) .nil
      have hall := hchildren.append hstop
      rw [List.append_nil] at hall
      refine .skip (fun key hkey heq => hname ?_) hall
      rwa [Event.start.inj heq]

theorem tells_of (nodes : List Node) {ms : List (Text × Text)}
    (h : namedOf keys nodes = ms.map textNode) : Tells keys (eventsOf nodes) ms := by
  cases nodes with
  | nil =>
    rw [namedOf] at h
    obtain rfl : ms = [] := List.map_eq_nil_iff.mp h.symm
    exact .nil
  | cons node nodes =>
    rw [namedOf] at h
    obtain ⟨ms₁, ms₂, rfl, h₁, h₂⟩ := List.map_eq_append_iff.mp h.symm
    rw [eventsOf_cons]
    exact (node.tells h₁.symm).append (tells_of nodes h₂.symm)

end

/-- Events that begin none of the elements tell nothing. -/
theorem Tells.behind (h : Tells keys (es ++ es') ms)
    (hes : ∀ name ∈ keys, Event.start name ∉ es) : Tells keys es' ms := by
  induction es with
  | nil => exact h
  | cons e es ih =>
    generalize hall : e :: es ++ es' = all at h
    cases h with
    | nil => cases hall
    | skip _ h =>
      cases hall
      exact ih h fun name hname hmem => hes name hname (List.mem_cons_of_mem e hmem)
    | text hname _ =>
      obtain ⟨rfl, -⟩ := List.cons_eq_cons.mp hall
      exact absurd List.mem_cons_self (hes _ hname)

theorem Tells.first {name' : Text} (h : Tells keys (.start name :: es) ((name', v) :: ms))
    (hname : name ∈ keys) : ∃ es', es = v.map .char ++ .stop name :: es' ∧ Tells keys es' ms := by
  cases h with
  | skip he => exact absurd rfl (he name hname)
  | text _ h => exact ⟨_, rfl, h⟩

theorem Tells.split (h : Tells keys es ((name, v) :: ms)) : ∃ es₁ es₂,
    es = es₁ ++ .start name :: (v.map .char ++ .stop name :: es₂) ∧ Tells keys es₂ ms := by
  generalize hall : (name, v) :: ms = all at h
  induction h with
  | nil => cases hall
  | @skip e _ _ _ _ ih =>
    obtain ⟨es₁, es₂, rfl, h⟩ := ih hall
    exact ⟨e :: es₁, es₂, rfl, h⟩
  | text _ h =>
    cases hall
    exact ⟨[], _, rfl, h⟩

/-! ### Fixed parts -/

inductive Piece where
  | start (name : Text)
  | stop (name : Text)
  | text (v : Text)

namespace Piece

def written : Piece → Text
  | .start name => '<' :: (name ++ ['>'])
  | .stop name => '<' :: '/' :: (name ++ ['>'])
  | .text v => v

def events : Piece → List Event
  | .start name => [.start name]
  | .stop name => [.stop name]
  | .text v => v.map .char

def isPlain (c : Char) : Bool := c ≠ '<' ∧ c ≠ '&' ∧ c ≠ ']' ∧ c ≠ '\r' ∧ isXmlChar c = true

def ok : Piece → Bool
  | .start name => isName name
  | .stop name => isName name
  | .text v => v.all isPlain

theorem fixed {piece : Piece} (h : piece.ok = true) : Fixed piece.written piece.events := by
  cases piece with
  | start name =>
    refine .single fun x => ?_
    simpa [written, events] using readToken_start h x
  | stop name =>
    refine .single fun x => ?_
    simpa [written, events] using readToken_stop h x
  | text v =>
    refine .chars fun c hc => ?_
    have hplain := of_decide_eq_true (List.all_eq_true.mp h c hc)
    exact ⟨hplain.1, hplain.2.1, hplain.2.2.1, hplain.2.2.2.2⟩

theorem clean {piece : Piece} (h : piece.ok = true) : '\r' ∉ piece.written := by
  cases piece with
  | start name =>
    have hname : '\r' ∉ name := not_mem_name h rfl
    simp [written, hname]
  | stop name =>
    have hname : '\r' ∉ name := not_mem_name h rfl
    simp [written, hname]
  | text v => exact fun hmem => (of_decide_eq_true (List.all_eq_true.mp h _ hmem)).2.2.2.1 rfl

end Piece

def writtenPieces (pieces : List Piece) : Text := pieces.flatMap Piece.written

def eventsPieces (pieces : List Piece) : List Event := pieces.flatMap Piece.events

theorem fixed_pieces {pieces : List Piece} (h : pieces.all Piece.ok = true) :
    Fixed (writtenPieces pieces) (eventsPieces pieces) := by
  induction pieces with
  | nil => exact .nil
  | cons piece pieces ih =>
    obtain ⟨hpiece, hpieces⟩ := (Bool.and_eq_true _ _).mp (List.all_cons.symm.trans h)
    exact (Piece.fixed hpiece).append (ih hpieces)

theorem writtenPieces_text (pieces : List Piece) (v : Text) :
    writtenPieces (pieces ++ [.text v]) = writtenPieces pieces ++ v := by
  simp [writtenPieces, Piece.written]

theorem clean_pieces {pieces : List Piece} (h : pieces.all Piece.ok = true) :
    '\r' ∉ writtenPieces pieces := by
  intro hmem
  obtain ⟨piece, hpiece, hin⟩ := List.mem_flatMap.mp hmem
  exact Piece.clean (List.all_eq_true.mp h piece hpiece) hin

/-- The piece is no end tag of which the name begins with `name`. -/
def Piece.quiet (name : Text) : Piece → Bool
  | .stop name' => !name.isPrefixOf name'
  | _ => true

theorem infix_behind {w : Text} (hv : '<' ∉ v) (h : '<' :: w <:+: v ++ s) : '<' :: w <:+: s := by
  induction v with
  | nil => exact h
  | cons c v ih =>
    rw [List.mem_cons, not_or] at hv
    rw [List.cons_append, List.infix_cons_iff] at h
    rcases h with hpre | hin
    · exact absurd (List.cons_prefix_cons.mp hpre).1 hv.1
    · exact ih hv.2 hin

/-- Behind the `<` of a tag stands the whole of the word, or the word is found later. -/
theorem infix_tag {w tag : Text} (htag : '<' ∉ tag) (h : '<' :: w <:+: '<' :: tag ++ s) :
    w <+: tag ++ s ∨ '<' :: w <:+: s := by
  rw [List.cons_append, List.infix_cons_iff] at h
  exact h.imp (fun hpre => (List.cons_prefix_cons.mp hpre).2) (infix_behind htag)

theorem no_endTag {pieces : List Piece} (hname : isName name = true)
    (hok : pieces.all Piece.ok = true) (hquiet : pieces.all (Piece.quiet name) = true) :
    ¬ '<' :: '/' :: name <:+: writtenPieces pieces := by
  induction pieces with
  | nil => exact fun h => absurd (List.infix_nil.mp h) (List.cons_ne_nil _ _)
  | cons piece pieces ih =>
    obtain ⟨hpiece, hpieces⟩ := (Bool.and_eq_true _ _).mp (List.all_cons.symm.trans hok)
    obtain ⟨hends, hrest⟩ := (Bool.and_eq_true _ _).mp (List.all_cons.symm.trans hquiet)
    intro h
    change _ <:+: piece.written ++ writtenPieces pieces at h
    refine ih hpieces hrest ?_
    cases piece with
    | start name' =>
      have hopen : '<' ∉ name' := not_mem_name hpiece rfl
      rcases infix_tag (by simp [hopen]) h with hpre | hin
      · -- no name begins with a `/`
        obtain ⟨c, rest, rfl, -, hall⟩ := name_cons hpiece
        rw [List.cons_append, List.cons_append, List.cons_prefix_cons] at hpre
        have hslash := hall c (by simp)
        rw [← hpre.1] at hslash
        cases hslash
      · exact hin
    | stop name' =>
      have hopen : '<' ∉ name' := not_mem_name hpiece rfl
      rcases infix_tag (by simp [hopen]) h with hpre | hin
      · rw [List.cons_append, List.cons_prefix_cons, List.append_assoc] at hpre
        have hnot : ¬ name <+: name' := fun hp => by
          rw [Piece.quiet, List.isPrefixOf_iff_prefix.mpr hp] at hends
          cases hends
        rcases List.prefix_or_prefix_of_prefix hpre.2 (List.prefix_append name' _) with hp | hp
        · exact absurd hp hnot
        · obtain ⟨z, rfl⟩ := hp
          cases z with
          | nil => exact absurd (by simp) hnot
          | cons c z =>
            -- what stands behind the shorter name closes its tag
            have hclose := (List.prefix_append_right_inj name').mp hpre.2
            rw [List.singleton_append, List.cons_prefix_cons] at hclose
            exact absurd (by simp [hclose.1]) (not_mem_name (c := '>') hname rfl)
      · exact hin
    | text v =>
      refine infix_behind (fun hmem => ?_) h
      exact (of_decide_eq_true (List.all_eq_true.mp hpiece _ hmem)).1 rfl

/-! ### Values between fixed parts -/

/-- An element behind fixed pieces, and its text: a part that is fixed, and the value. -/
structure Slot where
  before : List Piece
  name : Text
  lead : Text
  value : Text

namespace Slot

def pieces (slot : Slot) : List Piece := slot.before ++ [.start slot.name, .text slot.lead]

def told (slot : Slot) : Text × Text := (slot.name, slot.lead ++ slot.value)

end Slot

/-- The slots are filled, and `last` comes behind them. -/
def filled (slots : List Slot) (last : Text) : Text :=
  slots.foldr (fun slot rest =>
    writtenPieces slot.pieces ++
      (slot.value ++ '<' :: ('/' :: (slot.name ++ ['>']) ++ rest))) last

def filledEvents (slots : List Slot) (last : List Event) : List Event :=
  slots.foldr (fun slot rest =>
    eventsPieces slot.pieces ++ (slot.value.map .char ++ .stop slot.name :: rest)) last

/-- No end tag of one of the names ends in the text, whatever stands before it. -/
structure Inner (keys : List Text) (s : Text) : Prop where
  begins : s.head?.any (fun c => c ≠ '<' ∧ c ≠ '>') = true
  opens : (s.dropWhile fun c => c ≠ '<' ∧ c ≠ '>').head? = some '<'
  ends : ∀ name ∈ keys, ¬ '<' :: '/' :: name <:+: s

/-- No element with one of the names begins or ends in the pieces before that of the slot. -/
structure Slot.Fits (keys : List Text) (slot : Slot) : Prop where
  ok : slot.pieces.all Piece.ok = true
  named : isName slot.name = true
  key : slot.name ∈ keys
  quiet : ∀ name ∈ keys, Event.start name ∉ eventsPieces slot.before
  inner : Inner keys (writtenPieces slot.pieces)

theorem Inner.of_pieces {pieces : List Piece} (hnames : ∀ name ∈ keys, isName name = true)
    (hok : pieces.all Piece.ok = true)
    (hbegins : (writtenPieces pieces).head?.any (fun c => c ≠ '<' ∧ c ≠ '>') = true)
    (hopens : ((writtenPieces pieces).dropWhile fun c => c ≠ '<' ∧ c ≠ '>').head? = some '<')
    (hquiet : ∀ name ∈ keys, pieces.all (Piece.quiet name) = true) :
    Inner keys (writtenPieces pieces) :=
  ⟨hbegins, hopens, fun name hname => no_endTag (hnames name hname) hok (hquiet name hname)⟩

theorem Slot.Fits.of_pieces {slot : Slot} (hnames : ∀ name ∈ keys, isName name = true)
    (hok : slot.pieces.all Piece.ok = true) (hkey : slot.name ∈ keys)
    (hstarts : ∀ name ∈ keys, Event.start name ∉ eventsPieces slot.before)
    (hbegins : (writtenPieces slot.pieces).head?.any (fun c => c ≠ '<' ∧ c ≠ '>') = true)
    (hopens : ((writtenPieces slot.pieces).dropWhile fun c => c ≠ '<' ∧ c ≠ '>').head? = some '<')
    (hquiet : ∀ name ∈ keys, slot.pieces.all (Piece.quiet name) = true) : slot.Fits keys :=
  ⟨hok, hnames _ hkey, hkey, hstarts, .of_pieces hnames hok hbegins hopens hquiet⟩

variable {slots : List Slot} {last : Text} {lastEvents : List Event}

theorem Inner.no_tag {x y b q space : Text} (h : Inner keys (x ++ y)) (hx : x ≠ [])
    (hkey : name ∈ keys) (hname : isName name = true) (hspace : space.all isSpace = true)
    (htag : b ++ x = q ++ '<' :: '/' :: (name ++ (space ++ ['>']))) : False := by
  have hrest : '<' ∉ '/' :: (name ++ (space ++ ['>'])) := by
    have hopen : '<' ∉ name := not_mem_name hname rfl
    have hblank : '<' ∉ space := fun hmem => absurd (List.all_eq_true.mp hspace _ hmem) (by decide)
    simp [hopen, hblank]
  have hsuffix : x <:+ q ++ '<' :: '/' :: (name ++ (space ++ ['>'])) :=
    htag ▸ List.suffix_append b x
  rcases List.suffix_or_suffix_of_suffix hsuffix (List.suffix_append q _) with hlate | hearly
  · rcases List.suffix_cons_iff.mp hlate with rfl | hlate
    · exact absurd h.begins (by simp)
    · -- the text has the end of the tag, and before that a `<`
      have hend : '>' ∈ x := by
        have hconcat : x <:+ ('/' :: (name ++ space)) ++ ['>'] := by simpa using hlate
        rcases List.suffix_concat_iff.mp hconcat with rfl | ⟨x', rfl, -⟩
        · exact absurd rfl hx
        · simp
      obtain ⟨d, hd⟩ := List.head?_eq_some_iff.mp h.opens
      have hsplit := List.takeWhile_append_dropWhile
        (p := fun c : Char => decide (c ≠ '<' ∧ c ≠ '>')) (l := x ++ y)
      rw [hd, ← List.singleton_append, ← List.append_assoc] at hsplit
      rcases List.prefix_or_prefix_of_prefix (List.prefix_append x y) ⟨d, hsplit⟩ with hpre | hpre
      · rcases List.mem_append.mp (hpre.subset hend) with hmem | hmem
        · exact absurd (List.mem_takeWhile_imp hmem) (by decide)
        · exact absurd hmem (by decide)
      · exact hrest (hlate.subset (hpre.subset (by simp)))
  · refine h.ends name hkey ?_
    have hword : '<' :: '/' :: name <:+: '<' :: '/' :: (name ++ (space ++ ['>'])) :=
      (List.prefix_append ('<' :: '/' :: name) (space ++ ['>'])).isInfix
    exact (hword.trans hearly.isInfix).trans (List.prefix_append x y).isInfix

theorem lineEnds_slot {slot : Slot} (h : slot.Fits keys) (v rest : Text) :
    lineEnds (writtenPieces slot.pieces ++
        (v ++ '<' :: ('/' :: (slot.name ++ ['>']) ++ rest))) =
      writtenPieces slot.pieces ++
        (lineEnds v ++ '<' :: ('/' :: (slot.name ++ ['>']) ++ lineEnds rest)) := by
  have hname : '\r' ∉ slot.name := not_mem_name h.named rfl
  have hclean : '\r' ∉ '/' :: (slot.name ++ ['>']) := by simp [hname]
  rw [lineEnds_append (clean_pieces h.ok), lineEnds_open, lineEnds_append hclean]

/-- An element that ends too late leaves too little for the elements behind it. -/
theorem not_late (hslots : ∀ slot ∈ slots, slot.Fits keys ∧ slot.value ≠ [])
    (hlast : Inner keys (lineEnds last)) {b q space : Text} (hkey : name ∈ keys)
    (hname : isName name = true) (hspace : space.all isSpace = true)
    (htag : b ++ lineEnds (filled slots last) =
      q ++ '<' :: '/' :: (name ++ (space ++ ['>'])) ++ t)
    (hlate : t.length < (lineEnds (filled slots last)).length) (h : Lexes t es u)
    (htells : Tells keys es (slots.map Slot.told)) : False := by
  induction slots generalizing name b q space t es with
  | nil =>
    have hsuffix : t <:+ lineEnds last := suffix_of_length (htag ▸ List.suffix_append _ t)
      (List.suffix_append b _) hlate.le
    obtain ⟨x, hx⟩ := hsuffix
    have hne : x ≠ [] := by
      rintro rfl
      rw [List.nil_append] at hx
      exact absurd (congrArg List.length hx) hlate.ne
    rw [← hx] at hlast
    change b ++ lineEnds last = _ at htag
    rw [← hx, ← List.append_assoc] at htag
    exact hlast.no_tag hne hkey hname hspace (List.append_cancel_right htag)
  | cons slot slots ih =>
    obtain ⟨⟨hslot, hvalue⟩, hslots⟩ := List.forall_mem_cons.mp hslots
    unfold filled at htag hlate
    rw [List.foldr_cons, lineEnds_slot hslot] at htag hlate
    change b ++ (writtenPieces slot.pieces ++ (lineEnds slot.value ++
      '<' :: ('/' :: (slot.name ++ ['>']) ++ lineEnds (filled slots last)))) = _ at htag
    change t.length < (writtenPieces slot.pieces ++ (lineEnds slot.value ++
      '<' :: ('/' :: (slot.name ++ ['>']) ++ lineEnds (filled slots last)))).length at hlate
    generalize hbody : lineEnds slot.value ++
      '<' :: ('/' :: (slot.name ++ ['>']) ++ lineEnds (filled slots last)) = body at htag hlate
    have hall : t <:+ b ++ (writtenPieces slot.pieces ++ body) := htag ▸ List.suffix_append _ t
    by_cases hinside : body.length ≤ t.length
    · -- it ends in a fixed part
      have hbodyAll : body <:+ b ++ (writtenPieces slot.pieces ++ body) :=
        (List.suffix_append _ body).trans (List.suffix_append b _)
      obtain ⟨y, rfl⟩ := suffix_of_length hbodyAll hall hinside
      obtain ⟨x, hx⟩ := suffix_of_length hall (List.suffix_append b _) hlate.le
      rw [← List.append_assoc] at hx
      have hpieces := List.append_cancel_right hx
      have hne : x ≠ [] := by
        rintro rfl
        rw [← hpieces] at hlate
        simp at hlate
      have hinner := hslot.inner
      rw [← hpieces] at hinner htag
      have hwhole : b ++ x ++ (y ++ body) =
          q ++ '<' :: '/' :: (name ++ (space ++ ['>'])) ++ (y ++ body) := by
        rw [← htag]
        simp only [List.append_assoc]
      exact hinner.no_tag hne hkey hname hspace (List.append_cancel_right hwhole)
    · have hsuffix : t <:+ body := suffix_of_length hall
        ((List.suffix_append _ body).trans (List.suffix_append b _)) (by omega)
      obtain ⟨pre, hpre⟩ := hsuffix
      obtain ⟨es₁, es₂, rfl, hnext⟩ := htells.split
      obtain ⟨p, tag, t₁, rfl, -, hopened⟩ := h.opened
      have hcontent : Lexes t₁ ((slot.lead ++ slot.value).map .char ++ .stop slot.name :: es₂) u := by
        rcases hopened with hopened | ⟨-, rest, hstop, -⟩
        · exact hopened
        · obtain ⟨c, w, hw⟩ := List.exists_cons_of_ne_nil
            (List.append_ne_nil_of_right_ne_nil slot.lead hvalue)
          change (slot.lead ++ slot.value).map Event.char ++ _ = _ at hstop
          rw [hw] at hstop
          cases hstop
      obtain ⟨p', t', rfl, hclosed, hread⟩ := hcontent.closed
      obtain ⟨q', space', rfl, hspace'⟩ := hclosed.tag
      have hlong := hclosed.long
      have hends := lineEnds_length slot.value
      have hlength := congrArg List.length hpre
      rw [← hbody] at hlength hpre
      simp only [List.length_append, List.length_cons, List.length_nil] at hlength hlong hinside
      refine ih hslots (b := lineEnds slot.value ++ '<' :: '/' :: (slot.name ++ ['>']))
        (q := pre ++ (p ++ '<' :: (slot.name ++ (tag ++ '>' :: q')))) hslot.key hslot.named hspace'
        ?_ ?_ hread hnext
      · simpa using hpre.symm
      · omega

/-- What is filled in is found by name only where it is plain. -/
theorem Lexes.filled (hslots : ∀ slot ∈ slots, slot.Fits keys ∧ slot.value ≠ [])
    (hlast : Inner keys (lineEnds last)) (h : Lexes (lineEnds (filled slots last)) es u)
    (htells : Tells keys es (slots.map Slot.told)) :
    ∀ slot ∈ slots, lineEnds slot.value = slot.value ∧ Literal slot.value := by
  induction slots generalizing es with
  | nil => simp
  | cons slot slots ih =>
    obtain ⟨⟨hslot, hvalue⟩, hslots⟩ := List.forall_mem_cons.mp hslots
    unfold Xml.filled at h
    rw [List.foldr_cons, lineEnds_slot hslot] at h
    change Lexes (writtenPieces slot.pieces ++ (lineEnds slot.value ++
      '<' :: ('/' :: (slot.name ++ ['>']) ++ lineEnds (Xml.filled slots last)))) es u at h
    have hpieces : writtenPieces slot.pieces = writtenPieces slot.before ++
        '<' :: (slot.name ++ '>' :: slot.lead) := by
      simp [Slot.pieces, writtenPieces, Piece.written]
    obtain ⟨hbefore, htag⟩ := (Bool.and_eq_true _ _).mp (List.all_append.symm.trans hslot.ok)
    have hlead : (Piece.text slot.lead).ok = true :=
      List.all_eq_true.mp htag _ (List.mem_cons_of_mem _ List.mem_cons_self)
    -- up to the element, and its start tag
    obtain ⟨es₁, es₂, hes, -⟩ := htells.split
    have hmem : Event.start slot.name ∈ es := by simp [hes]
    rw [hpieces, List.append_assoc] at h
    obtain ⟨es', rfl, hopen⟩ := (fixed_pieces hbefore).behind h hmem (hslot.quiet _ hslot.key)
    have hown := htells.behind hslot.quiet
    have hne : es' ≠ [] := by
      rintro rfl
      cases hown
    rw [List.cons_append, List.append_assoc, List.cons_append] at hopen
    obtain ⟨es₃, rfl, hcontent⟩ := Lexes.next (readToken_start hslot.named _) hopen hne
    obtain ⟨es₄, rfl, hothers⟩ := Tells.first hown hslot.key
    -- its text
    obtain ⟨rest, heq, hvalueRead⟩ := (Piece.fixed hlead).behind hcontent (e := .stop slot.name)
      (by simp) (by simp [Piece.events])
    rw [List.map_append, List.append_assoc] at heq
    obtain rfl := List.append_cancel_left heq
    obtain ⟨p, t, hpt, hclosed, hread⟩ := hvalueRead.closed
    have hlen := congrArg List.length hpt
    simp only [List.length_append, List.length_cons, List.length_nil] at hlen
    have hlong := hclosed.long
    have hends := lineEnds_length slot.value
    have hintime : ¬ t.length < (lineEnds (Xml.filled slots last)).length := by
      intro hlate
      obtain ⟨q, space, rfl, hspace⟩ := hclosed.tag
      refine not_late hslots hlast (b := lineEnds slot.value ++ '<' :: '/' :: (slot.name ++ ['>']))
        (q := q) hslot.key hslot.named hspace ?_ hlate hread hothers
      simpa using hpt
    obtain ⟨rfl, hliteral⟩ := hclosed.tight (by omega)
    rw [List.append_assoc] at hpt
    obtain ⟨hsame, htail⟩ := List.append_inj hpt (by omega)
    have hbehind : lineEnds (Xml.filled slots last) = t := by simpa using htail
    exact List.forall_mem_cons.mpr ⟨⟨hsame, hliteral⟩, ih hslots (hbehind ▸ hread) hothers⟩

/-- What is plain is read back. -/
theorem lexes_filled (hslots : ∀ slot ∈ slots, slot.Fits keys)
    (hplain : ∀ slot ∈ slots, lineEnds slot.value = slot.value ∧ Literal slot.value)
    (hends : lineEnds last = last) (h : Lexes last lastEvents u) :
    Lexes (lineEnds (filled slots last)) (filledEvents slots lastEvents) u := by
  induction slots with
  | nil => exact hends.symm ▸ h
  | cons slot slots ih =>
    obtain ⟨hslot, hslots⟩ := List.forall_mem_cons.mp hslots
    obtain ⟨⟨hvalue, hliteral⟩, hplain⟩ := List.forall_mem_cons.mp hplain
    have hstop := readToken_stop hslot.named (lineEnds (filled slots last))
    have hread := (fixed_pieces hslot.ok).lexes
      (hliteral.lexes (.token hstop (ih hslots hplain)))
    unfold filled filledEvents
    rw [List.foldr_cons, List.foldr_cons, lineEnds_slot hslot, hvalue]
    simpa [filled, filledEvents] using hread

end Xml
end Flingd
