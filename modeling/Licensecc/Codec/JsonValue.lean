-- The values that `JSON.parse` gives, over the texts of JavaScript.
import Licensecc.Codec.JsText

namespace Licensecc.Codec

/-- A parsed value, with numbers of some type. -/
inductive JsonValue (ν : Type) where
  | null
  | bool (b : Bool)
  | number (n : ν)
  | string (s : JsText)
  | array (l : List (JsonValue ν))
  | object (members : List (JsText × JsonValue ν))

/-- What holds of the scalars, and of an array and an object when it holds of what is in
them, holds of every value. -/
@[elab_as_elim]
theorem JsonValue.ind {ν : Type} {P : JsonValue ν → Prop} (null : P .null) (bool : ∀ b, P (.bool b))
    (number : ∀ n, P (.number n)) (string : ∀ s, P (.string s))
    (array : ∀ l, (∀ x ∈ l, P x) → P (.array l))
    (object : ∀ members, (∀ m ∈ members, P m.2) → P (.object members)) (v : JsonValue ν) : P v :=
  @JsonValue.rec ν P (fun l => ∀ x ∈ l, P x) (fun members => ∀ m ∈ members, P m.2)
    (fun m => P m.2) null bool number string array object (by simp)
    (fun _ _ hx hl => List.forall_mem_cons.mpr ⟨hx, hl⟩) (by simp)
    (fun _ _ hm hl => List.forall_mem_cons.mpr ⟨hm, hl⟩) (fun _ _ hv => hv) v

end Licensecc.Codec
