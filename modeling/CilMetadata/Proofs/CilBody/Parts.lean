import CilMetadata.Body.MethodBody

/-!
# Bodies made of parts

A body holds the parts that it is made of, in their order, and each local with its position as index.
Operands number the locals in 16 bits, so more than 65536 of them are refused; fewer make the same body
with and without the check.

* `holdsParts_ofParts`: what the body of some parts holds;
* `exists_names`: every local of an accepted body can be named by an operand;
* `parts_checked`: when parts are accepted, and as which body.
-/

namespace CilMetadata

/-- An operand names a local by its index. -/
def Operand.Names (o : Operand) (x : Local) : Prop := ∃ n : UInt16, o = .localSlot n ∧ n.toNat = x.index

theorem LocalList.slots_ofList (locals : List Local) :
    (ofList locals).slots = locals.mapIdx fun i x => { x with index := i } := by
  unfold ofList renumber
  simp

theorem Error.text_tooManyLocals (n : Nat) : (malformedBody (.tooManyLocals n)).text =
    "Malformed method body - " ++ (toString n ++ " locals exceed the maximum of 65536") := by
  have hmaximum : " locals exceed the maximum of " ++ toString maxLocals =
      " locals exceed the maximum of 65536" := by cbv
  show "Malformed method body - " ++ (toString n ++ " locals exceed the maximum of " ++ toString maxLocals) = _
  rw [String.append_assoc, hmaximum]

namespace CilBody

variable {initLocals : Bool} {instructions : List Instruction} {handlers : List ExceptionHandler}
  {locals : List Local}

/-- A body holds some parts, and nothing else. -/
structure HoldsParts (b : CilBody) (initLocals : Bool) (instructions : List Instruction)
    (handlers : List ExceptionHandler) (locals : List Local) : Prop where
  initLocals_eq : b.initLocals = initLocals
  instructions_eq : b.instructions = instructions
  handlers_eq : b.handlers = handlers
  slots_eq : b.locals.slots = locals.mapIdx fun i x => { x with index := i }
  rest_eq : b.maxStack = 0 ∧ b.localSignature = 0

theorem holdsParts_ofParts (initLocals : Bool) (instructions : List Instruction)
    (handlers : List ExceptionHandler) (locals : List Local) :
    HoldsParts (ofParts initLocals instructions handlers locals) initLocals instructions handlers locals where
  initLocals_eq := rfl
  instructions_eq := rfl
  handlers_eq := rfl
  slots_eq := LocalList.slots_ofList locals
  rest_eq := ⟨rfl, rfl⟩

/-- Locals that can be numbered in 16 bits can be named. -/
theorem exists_names {b : CilBody} (h : HoldsParts b initLocals instructions handlers locals)
    (hlen : locals.length ≤ maxLocals) {x : Local} (hx : x ∈ b.locals.slots) :
    ∃ o : Operand, o.Names x := by
  rw [h.slots_eq] at hx
  obtain ⟨i, hi, rfl⟩ := List.exists_of_mem_mapIdx hx
  have hlt : i < 65536 := Nat.lt_of_lt_of_le hi hlen
  refine ⟨.localSlot (UInt16.ofNat i), UInt16.ofNat i, rfl, ?_⟩
  rw [UInt16.toNat_ofNat']
  exact Nat.mod_eq_of_lt hlt

theorem ofParts?_eq_ok (hlocals : locals.length ≤ maxLocals) (hinstructions : instructions.length < 0x100000000)
    (hhandlers : handlers.length < 0x100000000) :
    ofParts? initLocals instructions handlers locals =
      .ok (ofParts initLocals instructions handlers locals) :=
  ofParts?_eq_ok_iff.mpr ⟨⟨hlocals, hinstructions, hhandlers⟩, rfl⟩

theorem ofParts?_eq_error (h : maxLocals < locals.length) :
    ofParts? initLocals instructions handlers locals =
      .error (.malformedBody (.tooManyLocals locals.length)) :=
  if_pos h

/-- **Parts.**  A body holds the parts that it is made of, in their order, with only the indexes of locals
replaced by positions.  The check accepts parts exactly if there are 65536 locals at most; it makes the
same body then, whose locals can all be named by operands, and says how many locals there are if it
refuses. -/
theorem parts_checked (initLocals : Bool) {instructions : List Instruction}
    {handlers : List ExceptionHandler} (locals : List Local)
    (hinstructions : instructions.length ≤ 0xFFFFFFFF) (hhandlers : handlers.length ≤ 0xFFFFFFFF) :
    let b := ofParts initLocals instructions handlers locals
    let checked := ofParts? initLocals instructions handlers locals
    HoldsParts b initLocals instructions handlers locals ∧
    ((∃ b', checked = .ok b') ↔ locals.length ≤ 65536) ∧
    (locals.length ≤ 65536 → checked = .ok b ∧ ∀ x ∈ b.locals.slots, ∃ o : Operand, o.Names x) ∧
    (65536 < locals.length → ∃ e, checked = .error e ∧ e = .malformedBody (.tooManyLocals locals.length) ∧
      e.text = "Malformed method body - " ++
        (toString locals.length ++ " locals exceed the maximum of 65536")) := by
  intro b checked
  have hholds : HoldsParts b initLocals instructions handlers locals :=
    holdsParts_ofParts initLocals instructions handlers locals
  have hok : locals.length ≤ 65536 → checked = .ok b := by
    intro h
    exact ofParts?_eq_ok h (by omega) (by omega)
  have herror : 65536 < locals.length →
      checked = .error (.malformedBody (.tooManyLocals locals.length)) := ofParts?_eq_error
  refine ⟨hholds, ⟨?_, fun h => ⟨b, hok h⟩⟩, fun h => ⟨hok h, fun x hx => exists_names hholds h hx⟩,
    fun h => ⟨_, herror h, rfl, Error.text_tooManyLocals locals.length⟩⟩
  rintro ⟨b', hb'⟩
  rcases Nat.lt_or_ge 65536 locals.length with hlt | hle
  · rw [herror hlt] at hb'
    cases hb'
  · exact hle

/-- As many locals as can be numbered, and one more. -/
theorem parts_checked_limit :
    let nop : Instruction := ⟨0, 0, 0, "nop", .sequential, .none⟩
    let locals := List.replicate 65536 { Local.plain with index := 7 }
    ([nop].length ≤ 0xFFFFFFFF ∧ ([] : List ExceptionHandler).length ≤ 0xFFFFFFFF) ∧
    ofParts? false [nop] [] locals = .ok (ofParts false [nop] [] locals) ∧
    ofParts? false [nop] [] (.plain :: locals) = .error (.malformedBody (.tooManyLocals 65537)) := by
  intro nop locals
  have hinstructions : [nop].length ≤ 0xFFFFFFFF := by decide
  have hhandlers : ([] : List ExceptionHandler).length ≤ 0xFFFFFFFF := by decide
  -- the length is all that counts of so long a list
  have hlimit : ∀ xs : List Local, xs.length = 65536 →
      ofParts? false [nop] [] xs = .ok (ofParts false [nop] [] xs) ∧
      ofParts? false [nop] [] (.plain :: xs) = .error (.malformedBody (.tooManyLocals 65537)) := by
    intro xs hlength
    have hmore : (Local.plain :: xs).length = 65537 := by rw [List.length_cons, hlength]
    obtain ⟨-, -, hok, -⟩ := parts_checked false xs hinstructions hhandlers
    obtain ⟨-, -, -, herror⟩ := parts_checked false (.plain :: xs) hinstructions hhandlers
    obtain ⟨e, he, rfl, -⟩ := herror (by omega)
    rw [hmore] at he
    exact ⟨(hok (by omega)).1, he⟩
  exact ⟨⟨hinstructions, hhandlers⟩, hlimit locals List.length_replicate⟩

end CilBody
end CilMetadata
