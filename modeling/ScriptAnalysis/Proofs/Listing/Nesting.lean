import ScriptAnalysis.Proofs.Canonical.Smallest
import ScriptAnalysis.Proofs.Listing
import ScriptAnalysis.Proofs.Malformed

namespace ScriptAnalysis

namespace Instruction

theorem Fits.two_le_size {ins : Instruction} (h : ins.Fits)
    (hdata : ins.opcode.carriesData = true)
    : 2 ≤ ins.size := by
  rcases ins with ⟨opcode, payload⟩
  cases hop : opcode.operand with
  | none => simp [Opcode.carriesData, hop] at hdata
  | fixed length =>
    rw [fits_iff_of_fixed hop] at h
    obtain ⟨-, hpos, -⟩ := Opcode.eq_data_of_operand hop
    rw [size_of_fixed hop]
    omega
  | prefixed width =>
    have hpos := width.bytes_pos
    rw [size_of_prefixed hop]
    omega

theorem size_le_of_mem {instructions : List Instruction} {ins : Instruction}
    (h : ins ∈ instructions)
    : ins.size ≤ (instructions.flatMap bytes).length := by
  obtain ⟨front, back, rfl⟩ := List.append_of_mem h
  simp only [List.flatMap_append, List.flatMap_cons, List.length_append, length_bytes]
  omega

end Instruction

namespace Listing

def listingBy (below? : List UInt8 → Option (Option String)) (script : List UInt8)
    : Option (Except ScriptError String) :=
  match (decode script).toExcept with
  | .error error => some (.error error)
  | .ok instructions =>
    (instructions.mapM fun (ins : Instruction) =>
      if ins.opcode.carriesData then
        (below? ins.payload).map (ins, ·)
      else
        some (ins, none)).map fun listed => .ok (render (lines listed))

/--
What is nested below the line of a push, if this can be told by going down at most so many levels.
To ask whether the payload is a script takes one level, even if it is none.
-/
def belowWithin? : (levels : Nat) → (payload : List UInt8) → Option (Option String)
  | 0, _ => none
  | levels + 1, payload =>
    if isNestedScript payload then
      (listingBy (belowWithin? levels) payload).map (·.toOption.map trimEnd)
    else
      some none

def listingWithin (levels : Nat) (script : List UInt8) : Option (Except ScriptError String) :=
  listingBy (belowWithin? levels) script

theorem mapM_eq_some {α β : Type} {f : α → Option β} {g : α → β} {items : List α}
    (h : ∀ item ∈ items, f item = some (g item))
    : items.mapM f = some (items.map g) := by
  induction items with
  | nil => rfl
  | cons item items ih =>
    rw [List.forall_mem_cons] at h
    rw [List.mapM_cons, h.left, ih h.right]
    rfl

theorem listingBy_eq_listing {below? : List UInt8 → Option (Option String)} {script : List UInt8}
    (h : ∀ ins ∈ (decode script).instructions, ins.opcode.carriesData = true
      → below? ins.payload = some (nested? ins))
    : listingBy below? script = some (listing script) := by
  unfold listingBy
  cases hdecode : (decode script).toExcept with
  | error error =>
    rw [Decoded.toExcept_eq_error_iff] at hdecode
    rw [listing_eq_error_iff.mpr hdecode]
  | ok instructions =>
    rw [Decoded.toExcept_eq_ok_iff] at hdecode
    rw [hdecode] at h
    rw [listing_of_complete hdecode, ← lines_eq]
    dsimp only
    rw [mapM_eq_some (g := fun ins => (ins, nested? ins))]
    . rfl
    . intro ins hins
      split
      . next hdata =>
        rw [h ins hins hdata]
        rfl
      . next hdata =>
        rw [nested?, Bool.eq_false_iff.mpr hdata]
        rfl

theorem two_le_length {instructions : List Instruction} {ins : Instruction}
    (hfits : ∀ ins ∈ instructions, ins.Fits) (hmem : ins ∈ instructions)
    (hdata : ins.opcode.carriesData = true)
    : 2 ≤ (instructions.flatMap Instruction.bytes).length
        ∧ ins.payload.length < (instructions.flatMap Instruction.bytes).length := by
  have hsize := Instruction.size_le_of_mem hmem
  have htwo := (hfits ins hmem).two_le_size hdata
  have hpayload : ins.payload.length < ins.size := by
    unfold Instruction.size
    omega
  omega

theorem belowWithin?_eq_nested? {levels : Nat} {ins : Instruction}
    (hdata : ins.opcode.carriesData = true) (hpos : 0 < levels)
    (hlength : ins.payload.length ≤ 2 * levels)
    : belowWithin? levels ins.payload = some (nested? ins) := by
  induction levels generalizing ins with
  | zero => contradiction
  | succ levels ih =>
    rw [belowWithin?, nested?, hdata, Bool.true_and]
    split
    . next hnested =>
      obtain ⟨front, last, hdecode, hlast⟩ := isNestedScript_iff.mp hnested
      obtain ⟨hfits, hbytes⟩ := decode_eq_complete_iff.mp hdecode
      rw [List.forall_mem_append] at hfits
      rw [listingBy_eq_listing]
      . rfl
      . rw [hdecode, List.forall_mem_append, List.forall_mem_singleton]
        constructor
        . intro inner hinner hcarries
          obtain ⟨htwo, hpayload⟩ := two_le_length hfits.left hinner hcarries
          -- The last instruction takes a byte as well, and no payload is pushed by it.
          have hsize := last.size_pos
          rw [← hbytes, List.flatMap_append, List.length_append, List.flatMap_singleton,
            Instruction.length_bytes] at hlength
          apply ih hcarries
          . omega
          . omega
        . intro hcarries
          simp [Opcode.carriesData, operand_of_not_push hlast] at hcarries
    . rfl

theorem listingWithin_eq_listing (script : List UInt8)
    : listingWithin (script.length / 2) script = some (listing script) := by
  apply listingBy_eq_listing
  intro ins hins hdata
  obtain ⟨tail, hscript, -⟩ := exists_decode_split script
  obtain ⟨htwo, hpayload⟩ := two_le_length (fun _ => fits_of_mem_decode) hins hdata
  have hlength := congrArg List.length hscript
  rw [List.length_append] at hlength
  apply belowWithin?_eq_nested? hdata
  . omega
  . omega

def indented (depth : Nat) (text : String) : String :=
  String.ofList (List.replicate (2 * depth) ' ') ++ text

inductive Shows (ins : Instruction) : String → Prop where
  | alone (depth : Nat) (preceding : List Instruction) (h : ¬ PushesScript ins)
    : Shows ins (indented depth (lineText preceding ins) ++ "\n")
  | nesting (depth : Nat) (preceding : List Instruction) (body : String) (h : PushesScript ins)
    (hbody : listing ins.payload = .ok (body ++ "\n"))
    : Shows ins (indented depth (lineText preceding ins)
        ++ "\n    -- Begin Redeem Script --\n" ++ body ++ "\n    -- End Redeem Script --\n")

theorem shows_lineBehind (depth : Nat) (preceding : List Instruction) (ins : Instruction)
    : Shows ins (lineBehind depth preceding ins).render := by
  by_cases h : PushesScript ins
  . obtain ⟨body, hbody, hnested⟩ := nested?_of_pushesScript h
    rw [lineBehind, hnested]
    exact .nesting (depthAt depth ins.opcode) preceding body h hbody
  . rw [lineBehind, nested?_of_not_pushesScript h]
    exact .alone (depthAt depth ins.opcode) preceding h

theorem forall₂_shows_linesBehind (depth : Nat) (preceding instructions : List Instruction)
    : List.Forall₂ Shows instructions
        ((linesBehind depth preceding instructions).map Line.render) := by
  induction instructions generalizing depth preceding with
  | nil => exact .nil
  | cons ins instructions ih => exact .cons (shows_lineBehind depth preceding ins) (ih _ _)

end Listing

open Listing

/--
The listing of a script that decodes in full consists of one block for each instruction, which nests
the listing of the payload exactly if it is pushed, decodes in full and ends with an instruction
that is not a push. However deep the nesting, the recursion takes no more levels than half the
number of bytes.
-/
theorem listing_nests_scripts {script : List UInt8} {instructions : List Instruction}
    (h : decode script = ⟨instructions, none⟩)
    : (∃ blocks, listing script = .ok (String.join blocks)
          ∧ List.Forall₂ Shows instructions blocks)
        ∧ listingWithin (script.length / 2) script = some (listing script) := by
  constructor
  . exact ⟨_, listing_of_complete h, forall₂_shows_linesBehind 0 [] instructions⟩
  . apply listingWithin_eq_listing

theorem listing_nests_two_levels
    : PushesScript ⟨.data 3, [0x01, 0x76, 0xac]⟩ ∧ PushesScript ⟨.data 1, [0x76]⟩
        ∧ listingWithin 2 [0x03, 0x01, 0x76, 0xac] = some (listing [0x03, 0x01, 0x76, 0xac])
        ∧ listingWithin 1 [0x03, 0x01, 0x76, 0xac] = none
        ∧ ∃ depth body, listing [0x01, 0x76, 0xac] = .ok (body ++ "\n")
          ∧ listing [0x03, 0x01, 0x76, 0xac]
              = .ok (indented depth "OP_DATA_3 0176ac" ++ "\n    -- Begin Redeem Script --\n"
                  ++ body ++ "\n    -- End Redeem Script --\n") := by
  have hdecode : decode [0x03, 0x01, 0x76, 0xac]
      = ⟨[⟨.data 3, [0x01, 0x76, 0xac]⟩], none⟩ := by
    decide +kernel
  have houter : PushesScript ⟨.data 3, [0x01, 0x76, 0xac]⟩ := by
    rw [pushesScript_iff]
    decide +kernel
  have hinner : PushesScript ⟨.data 1, [0x76]⟩ := by
    rw [pushesScript_iff]
    decide +kernel
  obtain ⟨⟨blocks, hlisting, hshows⟩, hlevels⟩ := listing_nests_scripts hdecode
  refine ⟨houter, hinner, hlevels, ?_, ?_⟩
  . rw [← Option.isNone_iff_eq_none]
    decide +kernel
  . cases hshows with
    | cons hblock hnone =>
      cases hnone
      cases hblock with
      | alone _ _ h => exact absurd houter h
      | nesting depth preceding body h hbody =>
        refine ⟨depth, body, hbody, ?_⟩
        have htext : lineText preceding ⟨.data 3, [0x01, 0x76, 0xac]⟩ = "OP_DATA_3 0176ac" := by
          rfl
        rw [hlisting, htext, String.join_cons, String.join_nil, String.append_empty]

end ScriptAnalysis
