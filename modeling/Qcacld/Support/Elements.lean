import Qcacld.Support.Buffer

/-!
# Support — Elements

Sequences of elements, each an id, a byte for the length, and the data: `encode` puts them one behind the other, and a sequence of bytes is `Whole` if it is made of them.  `startOf` is where the first element of a kind starts.  The sequence is determined by its bytes (`encode_inj`).
-/

namespace Qcacld.Support
open List Option

structure Element where
  id : UInt8
  data : List UInt8
  short : data.length < 256

namespace Element

variable {e e' : Element} {es es' pre post : List Element} {b : List UInt8} {p : Element → Bool}
  {k : ℕ}

def bytes (e : Element) : List UInt8 := e.id :: UInt8.ofNat e.data.length :: e.data

def encode (es : List Element) : List UInt8 := es.flatMap bytes

def Whole (b : List UInt8) : Prop := ∃ es, encode es = b

def startOf (p : Element → Bool) : List Element → Option ℕ
  | [] => none
  | e :: es => if p e then some 0 else (startOf p es).map (· + e.bytes.length)

/-- An element of a kind starts at `k`, the first of its kind. -/
def FirstAt (p : Element → Bool) (b : List UInt8) (k : ℕ) : Prop :=
  ∃ pre e post, b = encode (pre ++ e :: post) ∧ k = (encode pre).length ∧ p e = true ∧
    ∀ e' ∈ pre, p e' = false

@[simp] theorem length_bytes : e.bytes.length = e.data.length + 2 := rfl

@[simp] theorem encode_nil : encode [] = [] := rfl

@[simp] theorem encode_cons : encode (e :: es) = e.bytes ++ encode es := rfl

@[simp] theorem encode_append : encode (es ++ es') = encode es ++ encode es' :=
  flatMap_append

theorem toNat_length (e : Element) : (UInt8.ofNat e.data.length).toNat = e.data.length :=
  UInt8.toNat_ofNat_of_lt' e.short

theorem startOf_eq_some (h : startOf p es = some k) : ∃ pre e post, es = pre ++ e :: post ∧
    k = (encode pre).length ∧ p e = true ∧ ∀ e' ∈ pre, p e' = false := by
  induction es generalizing k with
  | nil => cases h
  | cons e es ih =>
    rw [startOf] at h
    split at h
    · next hp =>
      obtain rfl : 0 = k := some.inj h
      exact ⟨[], e, es, rfl, rfl, hp, fun _ h => absurd h not_mem_nil⟩
    · next hp =>
      obtain ⟨j, hj, rfl⟩ := map_eq_some_iff.1 h
      obtain ⟨pre, e', post, rfl, rfl, hp', hpre⟩ := ih hj
      refine ⟨e :: pre, e', post, rfl, ?_, hp', ?_⟩
      · rw [encode_cons, length_append, Nat.add_comm]
      · exact forall_mem_cons.2 ⟨by simpa using hp, hpre⟩

theorem encode_inj : encode es = encode es' ↔ es = es' := by
  refine ⟨fun h => ?_, fun h => by rw [h]⟩
  induction es generalizing es' with
  | nil =>
    cases es' with
    | nil => rfl
    | cons e' es' => cases h
  | cons e es ih =>
    cases es' with
    | nil => cases h
    | cons e' es' =>
      obtain ⟨hid, h⟩ := cons.inj h
      obtain ⟨hlen, h⟩ := cons.inj h
      have hlen : e.data.length = e'.data.length := by
        rw [← e.toNat_length, ← e'.toNat_length, hlen]
      obtain ⟨hdata, hrest⟩ := append_inj h hlen
      obtain ⟨i, d, hd⟩ := e
      obtain ⟨i', d', hd'⟩ := e'
      cases hid
      cases hdata
      rw [ih hrest]

end Element

end Qcacld.Support
