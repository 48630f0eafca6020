import EpochSplit.Proofs.Wire.Layout
import Mathlib.Data.List.Nodup
import Mathlib.Data.List.Pairwise
import Mathlib.Data.List.Perm.Basic
/-!
# Records in pieces

The bytes of a record fall into pieces, each a header and a content.  A writer need not lay them out
in the order of the fields, nor the pairs of a map in the order of the keys.  Fields do not touch
each other, so what is read depends only on the order of the pieces within each field
(`Schema.reads_pieces`).  Where the pieces of each field may come in any order, as those of a map
may (`FieldKind.cutInto_map`), so may all of them (`Schema.decode_of_perm`).
-/

namespace EpochSplit

namespace Wire

/-- A field as it is written: a header and a content. -/
structure Piece where
  header : Header
  content : Bytes

namespace Piece

/-- The bytes of a piece. -/
def bytes (piece : Piece) : Bytes :=
  piece.header.write ++ piece.content

/-- The piece that holds a content together with its length. -/
def delimited (number : Nat) (content : Bytes) : Piece :=
  ⟨⟨number, .lengthDelimited⟩, writeDelimited content⟩

/-- The piece of a record that may be absent. -/
def ofOption {M : Type} (s : Schema M) (number : Nat) (m? : Option M) : List Piece :=
  m?.toList.map fun m => delimited number (s.encode m)

/-- The pieces of a map, one for each pair. -/
def ofPairs {κ M : Type} (key : Scalar κ) (s : Schema M) (number : Nat) (pairs : List (κ × M)) :
    List Piece :=
  pairs.map fun p => delimited number (FieldKind.writePair key s p)

@[simp] lemma bytes_ne_nil (piece : Piece) : piece.bytes ≠ [] := by
  simp [bytes]

lemma length_content_le {piece : Piece} {pieces : List Piece} (h : piece ∈ pieces) :
    piece.content.length ≤ (pieces.flatMap bytes).length := by
  obtain ⟨before, after, rfl⟩ := List.append_of_mem h
  simp only [List.flatMap_append, List.flatMap_cons, List.length_append, bytes]
  omega

end Piece

/-- The contents of pieces are merged one after the other and take `a` to `b`. -/
inductive FieldKind.Gathers {α : Type} (k : FieldKind α) (budget : Nat) :
    α → List Piece → α → Prop
  | nil (a : α) : Gathers k budget a [] a
  | cons {a b c : α} {piece : Piece} {pieces : List Piece}
      (first : ∀ rest, k.merge budget piece.header.wire a (piece.content ++ rest) = .ok (b, rest))
      (more : Gathers k budget b pieces c) : Gathers k budget a (piece :: pieces) c

/-- A value falls into pieces that may be gathered in any order. -/
structure FieldKind.CutInto {α : Type} (k : FieldKind α) (budget number : Nat) (v : α)
    (pieces : List Piece) : Prop where
  bytes : pieces.flatMap Piece.bytes = k.write number v
  numbers : ∀ piece ∈ pieces, piece.header.number = number
  gathers : ∀ {pieces' : List Piece}, pieces'.Perm pieces →
    (∀ piece ∈ pieces', piece.content.length < 2 ^ 64) → k.Gathers budget k.absent pieces' v

/-- A field of a record falls into pieces that may be gathered in any order. -/
def Field.CutInto {M : Type} (budget : Nat) (m : M) (f : Field M) (pieces : List Piece) : Prop :=
  f.kind.CutInto budget f.number (f.get m) pieces

/-! ### Pieces of all fields -/

namespace Schema

variable {M : Type} {s : Schema M} {budget : Nat}

/-- A record is made up of its fields. -/
lemma ext_get (h : s.Lawful budget) {m m' : M} (heq : ∀ f ∈ s.fields, f.get m = f.get m') :
    m = m' := by
  rw [← h.rebuild m, ← h.rebuild m']
  exact List.foldl_ext _ _ _ fun r f hf => by rw [heq f hf]

lemma eq_of_number (h : s.Lawful budget) {f g : Field M} (hf : f ∈ s.fields) (hg : g ∈ s.fields)
    (heq : f.number = g.number) : f = g :=
  List.inj_on_of_nodup_map h.numbers hf hg heq

/-- Setting a field leaves the other fields as they are. -/
lemma get_set_of_ne (h : s.Lawful budget) {f g : Field M} (hf : f ∈ s.fields) (hg : g ∈ s.fields)
    (hne : f ≠ g) (m : M) (v : f.Value) : g.get (f.set m v) = g.get m := by
  have : Std.Symm fun f g : Field M =>
      (∀ m v, g.get (f.set m v) = g.get m) ∧ ∀ m v, f.get (g.set m v) = f.get m :=
    ⟨fun _ _ hapart => hapart.symm⟩
  exact (h.apart.forall hf hg hne).1 m v

/-- Pieces are read into a record if those of each field are gathered in the field. -/
theorem reads_pieces (h : s.Lawful budget) {pieces : List Piece} {r m : M}
    (hknown : ∀ piece ∈ pieces, ∃ f ∈ s.fields, f.number = piece.header.number)
    (hgathers : ∀ f ∈ s.fields, f.kind.Gathers budget (f.get r)
      (pieces.filter (·.header.number == f.number)) (f.get m)) :
    Reads (s.step budget) r (pieces.flatMap Piece.bytes) m := by
  induction pieces generalizing r with
  | nil =>
      have hsame : r = m := ext_get h fun f hf => by
        have hdone := hgathers f hf
        generalize f.get r = a, f.get m = b at hdone ⊢
        cases hdone
        rfl
      rw [hsame]
      exact .done m
  | cons piece pieces ih =>
      obtain ⟨⟨number, wire⟩, content⟩ := piece
      obtain ⟨f, hf, rfl⟩ := hknown _ List.mem_cons_self
      obtain ⟨hnumber, -, hget, -, -⟩ := h.fields f hf
      have hfield := hgathers f hf
      rw [List.filter_cons_of_pos (by simp)] at hfield
      generalize ha : f.get r = a, hc : f.get m = c at hfield
      cases hfield with
      | @cons _ b _ _ _ first more =>
          refine .next (b := f.set r b) (Piece.bytes_ne_nil _) (fun rest => ?_)
            (ih ?_ fun g hg => ?_)
          · rw [Piece.bytes, List.append_assoc, step, readHeader_write hnumber]
            simp only [bind, Except.bind, mergeField, find?_number h hf, ha, first]
          · exact fun piece hpiece => hknown piece (List.mem_cons_of_mem _ hpiece)
          · -- the piece is gathered in its own field, and the others are as they were
            by_cases hfg : f = g
            · subst hfg
              rw [hget, hc]
              exact more
            · have hother := hgathers g hg
              have hne : f.number ≠ g.number := fun heq => hfg (eq_of_number h hf hg heq)
              rw [List.filter_cons_of_neg (by simpa using hne)] at hother
              rwa [get_set_of_ne h hf hg hfg]

section Cut

variable {fields : List (Field M)} {m : M} {groups : List (List Piece)}

lemma flatMap_of_cut (h : List.Forall₂ (Field.CutInto budget m) fields groups) :
    groups.flatten.flatMap Piece.bytes =
      fields.flatMap fun f => f.kind.write f.number (f.get m) := by
  induction h with
  | nil => rfl
  | cons hfield _ ih =>
      rw [List.flatMap_cons, List.flatten_cons, List.flatMap_append, hfield.bytes, ih]

lemma number_of_cut (h : List.Forall₂ (Field.CutInto budget m) fields groups) {piece : Piece}
    (hpiece : piece ∈ groups.flatten) : ∃ f ∈ fields, f.number = piece.header.number := by
  induction h with
  | nil => cases hpiece
  | @cons f pieces fields groups hfield _ ih =>
      rw [List.flatten_cons, List.mem_append] at hpiece
      obtain hhere | hlater := hpiece
      · exact ⟨f, List.mem_cons_self, (hfield.numbers piece hhere).symm⟩
      · obtain ⟨g, hg, hnumber⟩ := ih hlater
        exact ⟨g, List.mem_cons_of_mem _ hg, hnumber⟩

/-- The pieces of a field are told apart from those of the other fields by their number. -/
lemma cutInto_filter (h : List.Forall₂ (Field.CutInto budget m) fields groups)
    (hnumbers : (fields.map (·.number)).Nodup) {f : Field M} (hf : f ∈ fields) :
    f.CutInto budget m (groups.flatten.filter (·.header.number == f.number)) := by
  induction h with
  | nil => cases hf
  | @cons g pieces fields groups hfield hmore ih =>
      rw [List.map_cons, List.nodup_cons] at hnumbers
      obtain ⟨hfresh, hnumbers⟩ := hnumbers
      rw [List.flatten_cons, List.filter_append]
      obtain rfl | hf := List.mem_cons.1 hf
      · have hall : pieces.filter (·.header.number == f.number) = pieces :=
          List.filter_eq_self.2 fun piece hpiece => by simp [hfield.numbers piece hpiece]
        have hnone : groups.flatten.filter (·.header.number == f.number) = [] := by
          refine List.filter_eq_nil_iff.2 fun piece hpiece heq => hfresh ?_
          obtain ⟨g, hg, hnumber⟩ := number_of_cut hmore hpiece
          rw [← beq_iff_eq.1 heq, ← hnumber]
          exact List.mem_map_of_mem hg
        rwa [hall, hnone, List.append_nil]
      · have hnone : pieces.filter (·.header.number == f.number) = [] := by
          refine List.filter_eq_nil_iff.2 fun piece hpiece heq => hfresh ?_
          rw [← hfield.numbers piece hpiece, beq_iff_eq.1 heq]
          exact List.mem_map_of_mem hf
        rw [hnone, List.nil_append]
        exact ih hnumbers hf

/-- A record is read from the pieces of its fields, in whatever order they come. -/
theorem decode_of_perm [h : s.Lawful depthLimit]
    (hcut : List.Forall₂ (Field.CutInto depthLimit m) s.fields groups) {pieces : List Piece}
    (hpieces : pieces.Perm groups.flatten)
    (hlength : (pieces.flatMap Piece.bytes).length < 2 ^ 64) :
    s.decode (pieces.flatMap Piece.bytes) = .ok m := by
  refine decode_of_reads (reads_pieces h (fun piece hpiece => ?_) fun f hf => ?_)
  · exact number_of_cut hcut (hpieces.mem_iff.1 hpiece)
  · rw [h.absent f hf]
    refine (cutInto_filter hcut h.numbers hf).gathers (hpieces.filter _) fun piece hpiece => ?_
    exact Nat.lt_of_le_of_lt (Piece.length_content_le (List.mem_of_mem_filter hpiece)) hlength

end Cut

end Schema

/-! ### Pieces of one field -/

namespace FieldKind

variable {M κ : Type} {s : Schema M} {budget number : Nat}

lemma cutInto_optional [s.Lawful budget] (m? : Option M) :
    (optional s).CutInto (budget + 1) number m? (Piece.ofOption s number m?) where
  bytes := by
    cases m? with
    | none => rfl
    | some m => exact List.append_nil _
  numbers := List.forall_mem_map.2 fun m _ => rfl
  gathers {pieces} hpieces hlength := by
    cases m? with
    | none =>
        rw [List.Perm.eq_nil hpieces]
        exact .nil _
    | some m =>
        obtain rfl : pieces = [.delimited number (s.encode m)] := List.perm_singleton.1 hpieces
        have hcontent := hlength _ (List.mem_singleton_self _)
        rw [Piece.delimited, length_writeDelimited] at hcontent
        exact .cons (merge_optional (by omega)) (.nil _)

variable [Ord κ] [Std.TransOrd κ]

/-- The pairs of a map are inserted one after the other. -/
lemma gathers_foldl (key : Scalar κ) [key.Lawful] [s.Lawful budget] {pairs : List (κ × M)}
    (hlength : ∀ piece ∈ Piece.ofPairs key s number pairs, piece.content.length < 2 ^ 64)
    (ps : Std.ExtTreeMap κ M) :
    (map key s).Gathers (budget + 2) ps (Piece.ofPairs key s number pairs)
      (pairs.foldl (fun ps p => ps.insert p.1 p.2) ps) := by
  induction pairs generalizing ps with
  | nil => exact .nil ps
  | cons p pairs ih =>
      have hcontent := hlength _ List.mem_cons_self
      simp only [Piece.delimited, length_writeDelimited] at hcontent
      exact .cons (merge_map key (by omega) .lengthDelimited ps)
        (ih (fun piece hpiece => hlength piece (List.mem_cons_of_mem _ hpiece)) _)

lemma cutInto_map [DecidableEq κ] [Std.LawfulEqOrd κ] (key : Scalar κ) [key.Lawful]
    [s.Lawful budget] (ps : Std.ExtTreeMap κ M) :
    (map key s).CutInto (budget + 2) number ps (Piece.ofPairs key s number ps.toList) where
  bytes := by
    rw [Piece.ofPairs, List.flatMap_map]
    rfl
  numbers := List.forall_mem_map.2 fun p _ => rfl
  gathers {pieces} hpieces hlength := by
    -- the pieces are those of the pairs in another order
    obtain ⟨pairs, rfl, hpairs⟩ := (congrFun₂ (List.eq_map_comp_perm _) _ _).mpr hpieces
    have hgathers : (map key s).Gathers (budget + 2) ∅ _ _ := gathers_foldl key hlength ∅
    rwa [foldl_insert_of_perm hpairs] at hgathers

end FieldKind

end Wire

end EpochSplit
