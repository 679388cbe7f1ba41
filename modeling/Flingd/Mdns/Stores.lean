import Flingd.Mdns.Wire

/-! Where `getLabel` writes. The appenders of the output buffer and the loop once
more, with the stores made through `_data_ptr` as the log; what they compute is
what the functions they stand for compute. A name without a label has nothing for
`delete_end` to take off. -/
namespace Flingd.Mdns
open Traced Reader

/-- A store at `_data_ptr[offset]`; the block has `room + 1` bytes. -/
structure Store where
  offset : Int
  room : Int
deriving DecidableEq, Repr

def Store.Inside (s : Store) : Prop := 0 ≤ s.offset ∧ s.offset ≤ s.room

namespace Stores

def valueOf {ε α : Type} (x : Traced ε α) : Traced Store α := ⟨[], x.val⟩

def resize (b : Buffer) (size : Int) : Traced Store Buffer :=
  if b.length < size then touch ⟨b.index, size⟩ { b with length := size } else pure b

def append1 (b : Buffer) (c : UInt8) : Traced Store Buffer := do
  let b := b.grow
  touch ⟨b.index, b.length⟩ ()
  let b := { b with data := b.data ++ [c], index := b.index + 1 }
  touch ⟨b.index, b.length⟩ b

def appendc (b : Buffer) (c : UInt8) : Traced Store Buffer :=
  if c.toNat ≥ 128 then pure b else append1 b c

/-- `memcpy(&_data_ptr[_index], bfr, len)`. -/
def memcpy (b : Buffer) (len : Nat) : Traced Store Unit :=
  ⟨(List.range len).map fun i : Nat => ⟨b.index + i, b.length⟩, some ()⟩

def appendRaw (b : Buffer) (bfr : Bytes) (len : Nat) : Traced Store Buffer := do
  let len := if len = 0 then strlen bfr else len
  if len = 0 then pure b
  else
    let b ← resize b (b.index + len)
    memcpy b len
    let b := { b with data := b.data ++ bfr.take len, index := b.index + len }
    touch ⟨b.index, b.length⟩ b

def deleteEnd (b : Buffer) : Traced Store Buffer :=
  touch ⟨b.deleteEnd.index, b.length⟩ b.deleteEnd

def copyLabel (buf : Block) (data_len : UInt16) : Nat → LabelState → Traced Store LabelState
  | 0, s => pure s
  | tmp_len+1, s => do
    let _ ← valueOf (get8 buf data_len s.index)
    let c ← valueOf (deref buf s.index.toNat)
    let out ← appendRaw s.out [c] 1
    let s := { s with out := out }.count 1
    copyLabel buf data_len tmp_len { s with index := s.index + 1 }

def labelPass (buf : Block) (data_len : UInt16) (s : LabelState) :
    Traced Store (Pass LabelState (UInt32 × Buffer)) := do
  let tmp ← valueOf (get8 buf data_len s.index)
  if tmp = 0 then
    let s := s.count 1
    let out ← deleteEnd s.out
    pure (.leave (UInt32.ofNat s.retLen, out))
  else if tmp &&& 0xC0 = 0xC0 then
    let s := { s.count 2 with jump := true }
    let pointer ← valueOf (get16 buf data_len s.index)
    let pointer := pointer &&& 0x3FFF
    if pointer > data_len then pure (.leave (0xFFFFFFFF, s.out))
    else pure (.again { s with index := pointer })
  else
    let s := { s.count 1 with index := s.index + 1 }
    let s ← copyLabel buf data_len tmp.toNat s
    let out ← appendc s.out 46
    pure (.again { s with out := out })

def getLabel (passes : Nat) (buf : Block) (data_len index : UInt16) (buffer_out : Buffer) :
    Traced Store (UInt32 × Buffer) :=
  if index > data_len then pure (0xFFFFFFFF, buffer_out)
  else loop (labelPass buf data_len) passes ⟨index, false, 0, buffer_out⟩

/-! ### The same values -/

@[simp] theorem val_valueOf {ε α : Type} (x : Traced ε α) : (valueOf x).val = x.val := rfl

@[simp] theorem val_append1 (b : Buffer) (c : UInt8) : (append1 b c).val = some (b.append1 c) := by
  simp only [append1, val_bind, val_touch, Option.bind_some, Buffer.append1, Option.some.injEq,
    Buffer.mk.injEq]
  unfold Buffer.grow
  split <;> simp

@[simp] theorem val_appendc (b : Buffer) (c : UInt8) : (appendc b c).val = some (b.appendc c) := by
  unfold appendc Buffer.appendc
  split
  · rfl
  · exact val_append1 b c

theorem val_resize (b : Buffer) (size : Int) : (resize b size).val = some (b.resize size) := by
  unfold resize Buffer.resize
  split <;> rfl

@[simp] theorem resize_index (b : Buffer) (size : Int) : (b.resize size).index = b.index := by
  unfold Buffer.resize
  split <;> rfl

@[simp] theorem resize_data (b : Buffer) (size : Int) : (b.resize size).data = b.data := by
  unfold Buffer.resize
  split <;> rfl

@[simp] theorem val_appendRaw (b : Buffer) (bfr : Bytes) (len : Nat) :
    (appendRaw b bfr len).val = some (b.appendRaw bfr len) := by
  unfold appendRaw Buffer.appendRaw
  generalize (if len = 0 then strlen bfr else len) = n
  dsimp only
  split
  · rfl
  · simp [val_resize, memcpy]

@[simp] theorem val_deleteEnd (b : Buffer) : (deleteEnd b).val = some b.deleteEnd := rfl

variable (buf : Block) (len : UInt16)

theorem val_copyLabel (n : Nat) (s : LabelState) :
    (copyLabel buf len n s).val = (Reader.copyLabel buf len n s).val := by
  induction n generalizing s with
  | zero => rfl
  | succ n ih => simp [copyLabel, Reader.copyLabel, get8_val, deref, ih]

theorem val_labelPass (s : LabelState) :
    (labelPass buf len s).val = (Reader.labelPass buf len s).val := by
  simp only [labelPass, Reader.labelPass, val_bind, val_valueOf, get8_val, Option.bind_some]
  split_ifs
  · simp
  · simp only [val_bind, val_valueOf]
    congr 1
    funext w
    split_ifs <;> rfl
  · simp only [val_bind, val_copyLabel, val_appendc, Option.bind_some]
    rfl

theorem val_loop {ε δ σ ρ : Type} {f : σ → Traced ε (Pass σ ρ)} {g : σ → Traced δ (Pass σ ρ)}
    (h : ∀ s, (f s).val = (g s).val) (n : Nat) (s : σ) : (loop f n s).val = (loop g n s).val := by
  induction n generalizing s with
  | zero => rfl
  | succ n ih =>
    simp only [loop, val_bind, h]
    congr 1
    funext p
    cases p with
    | again s' => exact ih s'
    | leave r => rfl

/-- The loop with its stores computes what `getLabel` computes. -/
theorem val_getLabel (n : Nat) (i : UInt16) (out : Buffer) :
    (getLabel n buf len i out).val = (Reader.getLabel n buf len i out).val := by
  unfold getLabel Reader.getLabel
  split
  · rfl
  · exact val_loop (val_labelPass buf len) n _

/-! ### Inside the block -/

def Roomy (b : Buffer) : Prop := 0 ≤ b.index ∧ b.index ≤ b.length

theorem roomy_new (size : Int) : Roomy (Buffer.new size) :=
  ⟨Int.le_refl 0, by simp only [Buffer.new]; omega⟩

theorem append1_inside {b : Buffer} (h : Roomy b) (c : UInt8) :
    Logs Store.Inside (append1 b c) ∧ Roomy (b.append1 c) := by
  obtain ⟨h0, hl⟩ := h
  have hg : b.grow.index = b.index ∧ b.index + 1 ≤ b.grow.length := by
    unfold Buffer.grow Buffer.dfltSize
    split
    · exact ⟨rfl, by simp only; omega⟩
    · exact ⟨rfl, by omega⟩
  constructor
  · simp only [append1, logs_bind, logs_touch, Store.Inside, hg.1]
    exact ⟨by omega, fun _ _ => by omega⟩
  · exact ⟨by simp only [Buffer.append1]; omega, hg.2⟩

theorem appendc_inside {b : Buffer} (h : Roomy b) (c : UInt8) :
    Logs Store.Inside (appendc b c) ∧ Roomy (b.appendc c) := by
  unfold appendc Buffer.appendc
  split
  · exact ⟨logs_pure _ _, h⟩
  · exact append1_inside h c

theorem resize_inside {b : Buffer} (h : Roomy b) (size : Int) :
    Logs Store.Inside (resize b size) ∧ b.index ≤ (b.resize size).length ∧
      size ≤ (b.resize size).length := by
  obtain ⟨h0, hl⟩ := h
  unfold resize Buffer.resize
  split
  · exact ⟨(logs_touch _ _ _).mpr ⟨h0, by simp only; omega⟩, by simp only; omega, Int.le_refl _⟩
  · exact ⟨logs_pure _ _, hl, by omega⟩

theorem appendRaw_inside {b : Buffer} (h : Roomy b) (bfr : Bytes) (len : Nat) :
    Logs Store.Inside (appendRaw b bfr len) ∧ Roomy (b.appendRaw bfr len) := by
  unfold appendRaw Buffer.appendRaw
  generalize (if len = 0 then strlen bfr else len) = n
  obtain ⟨hr, hi, hs⟩ := resize_inside h (b.index + n)
  have h0 := h.1
  dsimp only
  split
  · exact ⟨logs_pure _ _, h⟩
  · simp only [logs_bind, logs_touch, hr, val_resize, Option.some.injEq, forall_eq', true_and,
      resize_index, Store.Inside, Roomy]
    refine ⟨⟨?_, fun _ _ => ⟨by omega, hs⟩⟩, by omega, hs⟩
    simp only [Logs, memcpy, List.mem_map, List.mem_range, resize_index]
    rintro e ⟨i, hlt, rfl⟩
    exact ⟨by simp only; omega, by simp only; omega⟩

theorem deleteEnd_inside {b : Buffer} (h : Roomy b) :
    Logs Store.Inside (deleteEnd b) ↔ 0 < b.index := by
  obtain ⟨h0, hl⟩ := h
  simp only [deleteEnd, logs_touch, Store.Inside, Buffer.deleteEnd]
  omega

variable {buf len}

theorem copyLabel_inside (n : Nat) {s s' : LabelState} (h : Roomy s.out)
    (hv : (Reader.copyLabel buf len n s).val = some s') :
    Logs Store.Inside (copyLabel buf len n s) ∧ Roomy s'.out := by
  induction n generalizing s with
  | zero =>
    cases hv
    exact ⟨logs_pure _ _, h⟩
  | succ n ih =>
    obtain ⟨hl, hr⟩ := appendRaw_inside h [buf s.index.toNat] 1
    simp only [Reader.copyLabel, val_bind, get8_val, Option.bind_some, deref, val_touch] at hv
    obtain ⟨h1, h2⟩ := ih (by simpa using hr) hv
    refine ⟨?_, h2⟩
    simp only [copyLabel, logs_bind, val_valueOf, get8_val, deref, val_touch, val_appendRaw,
      Option.some.injEq, forall_eq', hl, true_and]
    exact ⟨by simp [Logs, valueOf], by simp [Logs, valueOf], h1⟩

/-- A pass that meets a label leaves something in the output buffer. -/
theorem labelPass_inside_label {s : LabelState} {n : Nat} (h : Roomy s.out)
    (hi : itemAt buf len s.index = .label n) :
    ∃ s', (labelPass buf len s).val = some (.again s') ∧ Logs Store.Inside (labelPass buf len s) ∧
      Roomy s'.out ∧ 0 < s'.out.index := by
  obtain ⟨s', hv, -, ht⟩ := labelPass_label hi
  obtain ⟨hb, hn, hlt⟩ := itemAt_label.mp hi
  have h0 : byteAt buf len s.index ≠ 0 := by
    intro h'
    exact hn (by rw [← hb, h']; rfl)
  have hc : ¬ byteAt buf len s.index &&& 0xC0 = 0xC0 := by
    rw [and_c0_iff]
    omega
  obtain ⟨u, hu, -, -⟩ := copyLabel_val buf len n { s.count 1 with index := s.index + 1 }
  obtain ⟨hl, hr⟩ := copyLabel_inside n (by simpa using h) hu
  obtain ⟨hl2, hr2⟩ := appendc_inside hr 46
  have hs' : s' = { u with out := u.out.appendc 46 } := by
    simp only [Reader.labelPass, val_bind, get8_val, Option.bind_some, h0, hc, if_false, hb] at hv
    rw [hu] at hv
    simpa using hv.symm
  refine ⟨s', by rw [val_labelPass]; exact hv, ?_, by rw [hs']; exact hr2, ?_⟩
  · simp only [labelPass, logs_bind, val_valueOf, get8_val, Option.some.injEq, forall_eq', h0, hc,
      if_false, hb, hl, val_copyLabel, hu, hl2, logs_pure, implies_true, and_true]
    simp [Logs, valueOf]
  · have := ht.outIndex
    have := h.1
    simp only [List.length_append, List.length_cons] at *
    omega

/-- A pass that meets no label stores nothing, but for the one that ends the name. -/
theorem labelPass_inside_other {s : LabelState} (h : Roomy s.out)
    (hi : ∀ n, itemAt buf len s.index ≠ .label n) :
    Logs Store.Inside (labelPass buf len s) ↔
      (itemAt buf len s.index = .root → 0 < s.out.index) := by
  simp only [labelPass, logs_bind, val_valueOf, get8_val, Option.some.injEq, forall_eq']
  have hv (i : UInt16) : Logs Store.Inside (valueOf (get8 buf len i)) := by simp [Logs, valueOf]
  simp only [hv, true_and]
  by_cases h0 : byteAt buf len s.index = 0
  · simp only [h0, if_true, logs_bind, LabelState.count_out, deleteEnd_inside h, val_deleteEnd,
      logs_pure, implies_true, and_true, itemAt_root, true_imp_iff]
  · have hc : byteAt buf len s.index &&& 0xC0 = 0xC0 := by
      by_contra hc
      rw [and_c0_iff] at hc
      exact hi _ (itemAt_label.mpr ⟨rfl, fun hz => h0 (UInt8.toNat_inj.mp hz), by omega⟩)
    simp only [h0, hc, if_true, if_false, itemAt_root, false_imp_iff, iff_true, logs_bind]
    refine ⟨by simp [Logs, valueOf], fun w _ => ?_⟩
    split_ifs <;> exact logs_pure _ _

/-- Where the pointer at offset `i` leads. -/
def nextPointer (buf : Block) (len i : UInt16) : Option UInt16 :=
  match itemAt buf len i with
  | .pointer t => some t
  | _ => none

/-- The name at offset `i` has no label: its pointers lead to a zero byte. -/
def EmptyName (buf : Block) (len i : UInt16) : Prop :=
  ∃ k p, walk (nextPointer buf len) i k = some p ∧ itemAt buf len p = .root

/-- Every store is inside the block, and the index is at zero or above at the end. -/
def Clean (x : Traced Store (UInt32 × Buffer)) : Prop :=
  Logs Store.Inside x ∧ ∀ r, x.val = some r → 0 ≤ r.2.index

theorem clean_succ {body : LabelState → Traced Store (Pass LabelState (UInt32 × Buffer))} {n : Nat}
    {s : LabelState} : Clean (loop body (n+1) s) ↔ Logs Store.Inside (body s) ∧
      (∀ s', (body s).val = some (.again s') → Clean (loop body n s')) ∧
      ∀ r, (body s).val = some (.leave r) → 0 ≤ r.2.index := by
  unfold Clean
  rw [logs_loop_succ]
  simp only [loop, val_bind, Option.bind_eq_some_iff]
  constructor
  · rintro ⟨⟨hl, ha⟩, hr⟩
    exact ⟨hl, fun s' hs => ⟨ha s' hs, fun r h => hr r ⟨_, hs, h⟩⟩, fun r hs => hr r ⟨_, hs, rfl⟩⟩
  · rintro ⟨hl, ha, hr⟩
    refine ⟨⟨hl, fun s' hs => (ha s' hs).1⟩, ?_⟩
    rintro r ⟨p, hs, h⟩
    cases p with
    | again s' => exact (ha s' hs).2 r h
    | leave r' =>
      cases h
      exact hr _ hs

theorem emptyName_pointer {i t : UInt16} (h : itemAt buf len i = .pointer t) :
    EmptyName buf len i ↔ EmptyName buf len t := by
  have hn : nextPointer buf len i = some t := by simp [nextPointer, h]
  constructor
  · rintro ⟨k, p, hk, hp⟩
    cases k with
    | zero =>
      cases hk
      rw [h] at hp
      cases hp
    | succ k => exact ⟨k, p, by simpa [walk_succ, hn] using hk, hp⟩
  · rintro ⟨k, p, hk, hp⟩
    exact ⟨k+1, p, by simpa [walk_succ, hn] using hk, hp⟩

/-- An empty output and a name without a label: the last pass takes a dot off that is not there. -/
theorem loop_underflows {s : LabelState} (h : Roomy s.out) (h0 : s.out.index = 0)
    (he : EmptyName buf len s.index) : ∃ n, ¬ Clean (loop (labelPass buf len) n s) := by
  obtain ⟨k, p, hk, hp⟩ := he
  induction k generalizing s with
  | zero =>
    cases hk
    refine ⟨1, fun hc => ?_⟩
    have hl := (labelPass_inside_other h (by simp [hp])).mp (clean_succ.mp hc).1 hp
    omega
  | succ k ih =>
    cases hi : itemAt buf len s.index with
    | pointer t =>
      have hn : nextPointer buf len s.index = some t := by simp [nextPointer, hi]
      let s' : LabelState := { s.count 2 with jump := true, index := t }
      have hv : (labelPass buf len s).val = some (.again s') := by
        rw [val_labelPass, labelPass_pointer hi]
      obtain ⟨n, hc⟩ := ih (s := s') (by simpa [s'] using h) (by simpa [s'] using h0)
        (by simpa [walk_succ, hn] using hk)
      exact ⟨n+1, fun h => hc ((clean_succ.mp h).2.1 s' hv)⟩
    | root => simp [walk_succ, nextPointer, hi] at hk
    | bad => simp [walk_succ, nextPointer, hi] at hk
    | label n => simp [walk_succ, nextPointer, hi] at hk

/-- Otherwise every pass stays inside: a label has been met, or is still to come. -/
theorem loop_clean (n : Nat) {s : LabelState} (h : Roomy s.out)
    (hc : ¬ (s.out.index = 0 ∧ EmptyName buf len s.index)) :
    Clean (loop (labelPass buf len) n s) := by
  induction n generalizing s with
  | zero => exact ⟨logs_stuck _, by simp [loop]⟩
  | succ n ih =>
    have h0 := h.1
    rw [clean_succ]
    cases hi : itemAt buf len s.index with
    | label m =>
      obtain ⟨s', hv, hl, hr, hp⟩ := labelPass_inside_label h hi
      refine ⟨hl, fun t ht => ?_, fun r hr => by simp [hv] at hr⟩
      obtain rfl : t = s' := by simpa [hv] using ht.symm
      exact ih hr (by omega)
    | root =>
      have hv : (labelPass buf len s).val =
          some (.leave (UInt32.ofNat (s.count 1).retLen, s.out.deleteEnd)) := by
        rw [val_labelPass, labelPass_root hi]
      have hp : 0 < s.out.index := by
        by_contra hp
        exact hc ⟨by omega, 0, s.index, rfl, hi⟩
      refine ⟨(labelPass_inside_other h (by simp [hi])).mpr fun _ => hp,
        fun t ht => by simp [hv] at ht, fun r hr => ?_⟩
      obtain rfl : _ = r := by simpa [hv] using hr
      simp only [Buffer.deleteEnd]
      omega
    | bad =>
      have hv : (labelPass buf len s).val = some (.leave (0xFFFFFFFF, s.out)) := by
        rw [val_labelPass, labelPass_bad hi]
      refine ⟨(labelPass_inside_other h (by simp [hi])).mpr (by simp [hi]),
        fun t ht => by simp [hv] at ht, fun r hr => ?_⟩
      obtain rfl : _ = r := by simpa [hv] using hr
      exact h0
    | pointer t =>
      have hv : (labelPass buf len s).val =
          some (.again { s.count 2 with jump := true, index := t }) := by
        rw [val_labelPass, labelPass_pointer hi]
      refine ⟨(labelPass_inside_other h (by simp [hi])).mpr (by simp [hi]), fun u hu => ?_,
        fun r hr => by simp [hv] at hr⟩
      obtain rfl : _ = u := by simpa [hv] using hu
      refine ih (by simpa using h) ?_
      rw [emptyName_pointer hi] at hc
      simpa using hc

theorem getLabel_clean (buf : Block) (len start : UInt16) (size : Int) :
    (∀ n, Clean (getLabel n buf len start (Buffer.new size))) ↔
      ¬ (start ≤ len ∧ EmptyName buf len start) := by
  unfold getLabel
  by_cases hs : len < start
  · have hn : ¬ start ≤ len := UInt16.not_le.mpr hs
    simp only [gt_iff_lt, hs, if_true, hn, false_and, not_false_iff, iff_true]
    refine fun _ => ⟨logs_pure _ _, fun r hr => ?_⟩
    obtain rfl : _ = r := by simpa using hr
    exact Int.le_refl 0
  · simp only [gt_iff_lt, hs, if_false, UInt16.not_lt.mp hs, true_and]
    constructor
    · intro h he
      obtain ⟨n, hc⟩ := loop_underflows (s := ⟨start, false, 0, Buffer.new size⟩)
        (roomy_new size) rfl he
      exact hc (h n)
    · exact fun he n => loop_clean n (roomy_new size) fun h => he h.2

/-- `getLabel` with a fresh output buffer stays inside it, whatever the packet and
the offset, unless the name there has no label: then `delete_end` runs on an
empty output. -/
theorem label_output_inside_iff (buf : Block) (len start : UInt16) (size : Int) :
    (AllLogs Store.Inside (fun n => getLabel n buf len start (Buffer.new size)) ∧
      ∀ r, Gives (fun n => Reader.getLabel n buf len start (Buffer.new size)) r →
        0 ≤ r.2.index) ↔
      ¬ (start ≤ len ∧ EmptyName buf len start) := by
  rw [← getLabel_clean]
  constructor
  · rintro ⟨hl, hr⟩ n
    exact ⟨hl n, fun r h => hr r ⟨n, by rw [← val_getLabel]; exact h⟩⟩
  · rintro h
    refine ⟨fun n => (h n).1, ?_⟩
    rintro r ⟨n, hn⟩
    exact (h n).2 r (by rw [val_getLabel]; exact hn)

def rootQuestion : Bytes := [0, 0, 0, 0, 0, 1, 0, 0, 0, 0, 0, 0, 0, 0, 12, 0, 1]

theorem rootQuestion_underflows :
    (getLabel 1 (fun i => rootQuestion.getD i 0) 17 12 (Buffer.new 128)).log = [⟨-1, 128⟩] ∧
    (Reader.getLabel 1 (fun i => rootQuestion.getD i 0) 17 12 (Buffer.new 128)).val =
      some (1, ⟨-1, 128, []⟩) := by
  decide

end Stores
end Flingd.Mdns
