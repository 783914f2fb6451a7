import Svd2Rust.FieldRendering
import Svd2Rust.AsciiCrates

/-!
# Methods of a writer and its variants

The proxy of a field gets a method for every variant, in an `impl` block beside those of
`generic.rs`.  `Variant::from_value` renames the methods it knows to be there; `new` and
`width`, which every proxy has, are not among them, nor are the methods of the bit writers
that are told what to write by a one or a zero.
-/

namespace Svd2Rust

open RustStrings

/-- The methods of the bit writers beside `bit` and `variant`. -/
def BitMethod.all : List BitMethod := [.setBit, .clearBit, .clearBitByOne, .setBitByZero, .toggleBit]

def BitMethod.name : BitMethod → String
  | .setBit => "set_bit"
  | .clearBit => "clear_bit"
  | .clearBitByOne => "clear_bit_by_one"
  | .setBitByZero => "set_bit_by_zero"
  | .toggleBit => "toggle_bit"

/-- What `raw`, `bit_proxy!` and the `impl` of one kind define on a bit writer. -/
def BitMarker.methods (marker : BitMarker) : List String :=
  ["new", "width", "offset", "bit", "variant"] ++
    (BitMethod.all.filter fun m => (BitWriter.method marker m).isSome).map BitMethod.name

/-- What `raw` and `generic.rs` define on a field writer. -/
def SafetyMarker.methods (marker : SafetyMarker) : List String :=
  ["new", "width", "offset", "bits", "variant"] ++ if marker = .unsafe_ then [] else ["set"]

/-- The methods of the proxy of a field. -/
def WriterProxy.methods : WriterProxy → List String
  | .bitWriter marker _ => marker.methods
  | .fieldWriter _ _ marker => marker.methods

/-- The methods of a proxy that `INTERNALS` does not list. -/
def BitMarker.unguarded : BitMarker → List String
  | .bit1C => ["new", "width", "clear_bit_by_one"]
  | .bit0S => ["new", "width", "set_bit_by_zero"]
  | .bit1T | .bit0T => ["new", "width", "toggle_bit"]
  | .bitM | .bit1S | .bit0C => ["new", "width"]

def WriterProxy.unguarded : WriterProxy → List String
  | .bitWriter marker _ => marker.unguarded
  | .fieldWriter _ _ _ => ["new", "width"]

/-- A field writer has a safe `set` exactly if `FieldWriter.set` has a body for its
marker. -/
theorem set_isSome_iff {n : Nat} (marker : SafetyMarker) (w : BitVec n) (o wi value : Nat) :
    (FieldWriter.set marker w o wi value).isSome = true ↔ marker ≠ .unsafe_ := by
  cases marker <;> simp [FieldWriter.set]

theorem unguarded_eq (proxy : WriterProxy) :
    proxy.unguarded = proxy.methods.filter (· ∉ internals) := by
  have hbit : ∀ marker : BitMarker,
      marker.unguarded = marker.methods.filter (· ∉ internals) := by
    intro marker
    cases marker <;> decide
  have hfield : ∀ marker : SafetyMarker,
      ["new", "width"] = marker.methods.filter (· ∉ internals) := by
    intro marker
    unfold SafetyMarker.methods
    split
    · decide
    · decide
  cases proxy with
  | bitWriter marker valueTy => exact hbit marker
  | fieldWriter wi valueTy marker => exact hfield marker

/-- A name that no step of `IdentFormat::sanitize` behind the formatting changes or
makes. -/
def isPlain (name : String) : Bool :=
  !name.toList.head?.any (fun c => c.isDigit || c == '_') &&
    name.toList.getLast? != some '_' && !decide (name ∈ keywords)

theorem methods_plain (proxy : WriterProxy) {m : String} (hm : m ∈ proxy.methods) :
    isPlain m = true := by
  have hbit : ∀ marker : BitMarker, marker.methods.all isPlain = true := by
    intro marker
    cases marker <;> decide
  have hfield : ∀ marker : SafetyMarker, marker.methods.all isPlain = true := by
    intro marker
    unfold SafetyMarker.methods
    split
    · decide
    · decide
  cases proxy with
  | bitWriter marker valueTy => exact List.all_eq_true.mp (hbit marker) m hm
  | fieldWriter wi valueTy marker => exact List.all_eq_true.mp (hfield marker) m hm

theorem not_plain_append_underscore (s : String) : isPlain (s ++ "_") = false := by
  simp [isPlain]

theorem not_plain_underscore_append (s : String) : isPlain ("_" ++ s) = false := by
  simp [isPlain]

theorem sanitizeKeyword_eq_iff {m : String} (hm : isPlain m = true) (s : String) :
    sanitizeKeyword s = m ↔ s = m := by
  unfold sanitizeKeyword
  split
  · rename_i hkeyword
    constructor
    · intro heq
      obtain rfl := heq
      simp [not_plain_append_underscore] at hm
    · intro heq
      obtain rfl := heq
      simp [isPlain, hkeyword] at hm
  · exact Iff.rfl

section Names

variable {crates : Crates}

/-- The format makes such a name only of a name that it is the format of. -/
theorem sanitize_eq_iff {m : String} (hm : isPlain m = true) (format : IdentFormat)
    (name : String) :
    format.sanitize crates name = m ↔ format.apply crates name = m := by
  unfold IdentFormat.sanitize
  generalize format.apply crates name = s
  dsimp only
  have hrepair : (if s.toList.head?.any Char.isDigit then "_" ++ s else s) = m ↔ s = m := by
    split
    · rename_i hdigit
      constructor
      · intro heq
        obtain rfl := heq
        simp [not_plain_underscore_append] at hm
      · intro heq
        obtain rfl := heq
        obtain ⟨c, hc, hcdigit⟩ := (Option.any_eq_true _ _).mp hdigit
        simp [isPlain, hc, hcdigit] at hm
    · exact Iff.rfl
  rcases format.case with _ | case
  · exact (sanitizeKeyword_eq_iff hm _).trans hrepair
  cases case with
  | constant => exact hrepair
  | pascal => exact hrepair
  | snake => exact (sanitizeKeyword_eq_iff hm _).trans hrepair

variable {config : Config}

/-- The name of a variant's method is a method of the proxy if its name is one that
`INTERNALS` leaves out. -/
theorem sc_mem_methods_iff (proxy : WriterProxy) (value : Nat) (ev : EnumeratedValue) :
    (Variant.fromValue crates config value ev).sc ∈ proxy.methods ↔
      (config.identFormats .enumValueAccessor).apply crates ev.name ∈ proxy.unguarded := by
  have hsc : (Variant.fromValue crates config value ev).sc =
      if (config.identFormats .enumValueAccessor).sanitize crates ev.name ∈ internals then
        (config.identFormats .enumValueAccessor).sanitize crates ev.name ++ "_"
      else (config.identFormats .enumValueAccessor).sanitize crates ev.name := rfl
  have hformat : ∀ m ∈ proxy.methods,
      (config.identFormats .enumValueAccessor).sanitize crates ev.name = m ↔
        (config.identFormats .enumValueAccessor).apply crates ev.name = m :=
    fun m hm => sanitize_eq_iff (methods_plain proxy hm) _ _
  rw [hsc, unguarded_eq, List.mem_filter, decide_eq_true_eq]
  split
  · rename_i hlisted
    refine iff_of_false (fun hm => ?_) (fun hm => ?_)
    · have hplain := methods_plain proxy hm
      simp [not_plain_append_underscore] at hplain
    · rw [(hformat _ hm.1).mpr rfl] at hlisted
      exact hm.2 hlisted
  · rename_i hlisted
    constructor
    · intro hm
      have happly := (hformat _ hm).mp rfl
      rw [happly]
      exact ⟨hm, hlisted⟩
    · intro hm
      rw [(hformat _ hm.1).mpr rfl]
      exact hm.1

/-- **Methods.**  The method of a variant clashes with none of its proxy exactly if the
formatted name of the variant is no method that `INTERNALS` leaves out.  A name in `INTERNALS`
gets an underscore, which no method of a proxy ends in, so that the clash is with one of the
methods the list does not have. -/
theorem variantMethod_free_iff (value width : Nat) (ev : EnumeratedValue)
    (mwv : ModifiedWriteValues) (valueTy : String) (safety : Safety) :
    (Variant.fromValue crates config value ev).sc ∉
        (writerProxy width mwv valueTy safety).methods ↔
      (config.identFormats .enumValueAccessor).apply crates ev.name ∉
        (writerProxy width mwv valueTy safety).unguarded :=
  (sc_mem_methods_iff _ value ev).not

end Names

/-- A value `NEW` of a two-bit field gets a method `new`, which every writer has. -/
theorem not_variantMethod_free_new :
    (Variant.fromValue asciiCrates defaultConfig 1 (valuedEntry "NEW" 1)).sc = "new" ∧
      (Variant.fromValue asciiCrates defaultConfig 1 (valuedEntry "NEW" 1)).sc ∈
        (writerProxy 2 .modify "Mode" .safe).methods := by
  decide

end Svd2Rust
