import Robocol.PcapFiles

/-! Several sections in one pcapng file. The reader keeps one byte order and one table of
interfaces for the whole file, so a later section is read with what the first ones left. -/
namespace Robocol
namespace Capture
namespace Pcap

open ByteLayout

namespace Block

variable {endian : Endian} {table before : List Interface} {bs : List (Block endian)} {n m off : ℕ}

/-- The frames of blocks, where `table` are the interfaces declared before them. -/
def frames (table : List Interface) : List (Block endian) → List Captured
  | [] => []
  | b :: bs => b.frame table ++ frames (table ++ b.declared) bs

theorem ends_frames (table : List Interface) (off : ℕ) (bs : List (Block endian)) :
    (ends table off bs).map Prod.snd = frames table bs := by
  induction bs generalizing table off with
  | nil => rfl
  | cons b bs ih =>
    rw [ends,List.map_append,ih,List.map_map,frames]
    congr 1
    exact List.map_id _

theorem Names.mono {b : Block endian} (h : b.Names n) (hnm : n ≤ m) : b.Names m := by
  cases b with
  | packet => exact Nat.lt_of_lt_of_le h hnm
  | interface => trivial
  | other => trivial

theorem Declared.mono (h : Declared n bs) (hnm : n ≤ m) : Declared m bs := by
  induction bs generalizing n m with
  | nil => trivial
  | cons b bs ih => exact ⟨h.1.mono hnm,ih h.2 (by omega)⟩

theorem readBlocks_flatMap (h : Declared table.length bs) (rest : List UInt8) :
    readBlocks endian table (bs.flatMap bytes ++ rest) =
      (readBlocks endian (table ++ bs.flatMap declared) rest).map (frames table bs ++ ·) := by
  induction bs generalizing table with
  | nil =>
    rw [List.flatMap_nil,List.nil_append,List.flatMap_nil,List.append_nil]
    exact Option.map_id'.symm
  | cons b bs ih =>
    obtain ⟨hb,hbs⟩ := h
    rw [← List.length_append] at hbs
    rw [List.flatMap_cons,List.append_assoc,b.readBlocks_bytes hb,ih hbs,Option.map_map,List.flatMap_cons,
      ← List.append_assoc,frames]
    congr 1
    funext xs
    exact (List.append_assoc _ _ _).symm

/-- The interface that a packet finds in a table. -/
def found (table : List Interface) : Block endian → Option Interface
  | .packet iface .. => table[iface.toNat]?
  | .interface .. => none
  | .other .. => none

/-- Behind other interfaces each packet finds what it finds without them. -/
def Agrees (before table : List Interface) : List (Block endian) → Prop
  | [] => True
  | b :: bs => b.found (before ++ table) = b.found table ∧ Agrees before (table ++ b.declared) bs

theorem frame_eq_iff {b : Block endian} (h : b.Names table.length) :
    (b.frame (before ++ table) = b.frame table ↔ b.found (before ++ table) = b.found table) ∧
      (b.frame (before ++ table)).length = (b.frame table).length := by
  cases b with
  | interface => exact ⟨⟨fun _ => rfl,fun _ => rfl⟩,rfl⟩
  | other => exact ⟨⟨fun _ => rfl,fun _ => rfl⟩,rfl⟩
  | packet iface ts origLen data trailing hfits =>
    have hown : iface.toNat < table.length := h
    have hall : iface.toNat < (before ++ table).length := by
      rw [List.length_append]
      omega
    simp only [frame,found,List.getElem?_eq_getElem hown,List.getElem?_eq_getElem hall,Option.toList_some,
      List.map_cons,List.map_nil,List.cons.injEq,and_true,Captured.mk.injEq,Stamp.ticks.injEq,true_and,
      Option.some.injEq,Prod.ext_iff,List.length_singleton]
    exact and_comm

theorem frames_eq_iff (h : Declared table.length bs) :
    frames (before ++ table) bs = frames table bs ↔ Agrees before table bs := by
  induction bs generalizing table with
  | nil => exact ⟨fun _ => trivial,fun _ => rfl⟩
  | cons b bs ih =>
    obtain ⟨hb,hbs⟩ := h
    rw [← List.length_append] at hbs
    obtain ⟨hframe,hlen⟩ : (b.frame (before ++ table) = b.frame table ↔ _) ∧ _ := frame_eq_iff hb
    rw [frames,frames,Agrees,← hframe,← ih hbs,← List.append_assoc]
    exact ⟨fun heq => List.append_inj heq hlen,fun ⟨h,h'⟩ => by rw [h,h']⟩

end Block

namespace Section

def table (s : Section) : List Interface := s.blocks.flatMap Block.declared

def frames (s : Section) : List Captured := Block.frames [] s.blocks

theorem readBlocks_bytes (s : Section) (table : List Interface) (rest : List UInt8) :
    readBlocks s.endian table (s.bytes ++ rest) =
      (readBlocks s.endian (table ++ s.table) rest).map (Block.frames table s.blocks ++ ·) := by
  rw [bytes,List.append_assoc,s.readBlocks_header,
    Block.readBlocks_flatMap (s.declared.mono (Nat.zero_le _)),Section.table]

theorem length_bytes (s : Section) : 28 ≤ s.bytes.length := by
  have hfixed := s.fixed_length
  rw [bytes,List.length_append,s.length_header]
  omega

theorem read_append (s : Section) (rest : List UInt8) :
    read (s.bytes ++ rest) =
      (readBlocks s.endian s.table rest).map fun frames => .ok (s.frames ++ frames) := by
  have hat : At (s.bytes ++ rest) 0 (s.header ++ (s.blocks.flatMap Block.bytes ++ rest)) :=
    ⟨Nat.zero_le _,by rw [bytes,List.append_assoc,List.drop_zero]⟩
  have hlen := s.length_bytes
  obtain ⟨hhead,horder⟩ := s.header_fields hat
  rw [s.read_begins (by rw [List.length_append]; omega) hhead horder,s.readBlocks_bytes,List.nil_append,
    Option.map_map]
  rfl

theorem read_bytes (s : Section) : read s.bytes = some (.ok s.frames) := by
  have hrun := s.read_append []
  rwa [List.append_nil,readBlocks_stop (fun h => absurd h (by decide)),Option.map_some,List.append_nil] at hrun

end Section

/-- Two sections in a row. In one byte order the packets of the second look their interfaces up
behind those of the first, so that they are read as they are alone exactly where they find the
same there; in another order the second is not read where its header looks too long. -/
theorem sections_read (A B : Section) :
    read A.bytes = some (.ok A.frames) ∧ read B.bytes = some (.ok B.frames) ∧
    (A.endian = B.endian →
      read (A.bytes ++ B.bytes) = some (.ok (A.frames ++ Block.frames A.table B.blocks)) ∧
      (read (A.bytes ++ B.bytes) = some (.ok (A.frames ++ B.frames)) ↔ Block.Agrees A.table [] B.blocks)) ∧
    (B.bytes.length < (A.endian.word B.bytes 4).toNat →
      read (A.bytes ++ B.bytes) = some (.ok A.frames)) := by
  refine ⟨A.read_bytes,B.read_bytes,fun horder => ?_,fun hlong => ?_⟩
  · have hrun := B.readBlocks_bytes A.table []
    have hend : readBlocks B.endian (A.table ++ B.table) [] = some [] :=
      readBlocks_stop fun h => absurd h (by decide)
    rw [List.append_nil,hend,Option.map_some,List.append_nil] at hrun
    have hread : read (A.bytes ++ B.bytes) = some (.ok (A.frames ++ Block.frames A.table B.blocks)) := by
      rw [A.read_append,horder,hrun,Option.map_some]
    refine ⟨hread,?_⟩
    have hagree : Block.frames (A.table ++ []) B.blocks = Block.frames [] B.blocks ↔ _ :=
      Block.frames_eq_iff B.declared
    rw [← hagree,List.append_nil,hread,Option.some.injEq,Except.ok.injEq]
    exact ⟨fun heq => List.append_cancel_left heq,fun heq => congrArg (A.frames ++ ·) heq⟩
  · rw [A.read_append,readBlocks_stop fun _ _ => hlong,Option.map_some,List.append_nil]

section Samples

def plainInterface (endian : Endian) (linktype : UInt16) : Block endian :=
  .interface linktype (List.replicate 6 0) [] (.decimal 6) rfl
    (.microseconds fun raw h => by
      cases h with
      | here h => exact absurd h.2.2 (Option.some_ne_none raw).symm
      | later h4 => exact absurd h4 (by decide)) (by decide)

/-- A packet of one byte on the first interface. -/
def shortPacket (endian : Endian) : Block endian := .packet 0 7 1 [42] [0,0,0] (by decide)

/-- A section that declares one interface and may have a packet on it. -/
def oneInterface (endian : Endian) (linktype : UInt16) (packets : Bool) : Section where
  endian := endian
  fixed := List.replicate 12 0
  blocks := plainInterface endian linktype :: if packets then [shortPacket endian] else []
  fixed_length := by decide
  fits := by decide
  declared := by cases packets <;> exact ⟨trivial,by first | trivial | exact ⟨Nat.one_pos,trivial⟩⟩

/-- Behind a section with another link type a packet gets the wrong one, and behind one in another
byte order it is lost. -/
theorem sections_depend :
    read (oneInterface .little 101 false).bytes = some (.ok []) ∧
    read (oneInterface .little 1 true).bytes = some (.ok [⟨.ticks 7 (.decimal 6),1,[42]⟩]) ∧
    read ((oneInterface .little 101 false).bytes ++ (oneInterface .little 1 true).bytes) =
      some (.ok [⟨.ticks 7 (.decimal 6),101,[42]⟩]) ∧
    read (oneInterface .big 1 true).bytes = some (.ok [⟨.ticks 7 (.decimal 6),1,[42]⟩]) ∧
    read ((oneInterface .little 101 false).bytes ++ (oneInterface .big 1 true).bytes) = some (.ok []) := by
  decide +kernel

end Samples

end Pcap
end Capture
end Robocol
