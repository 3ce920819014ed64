import ClassScope.Proofs.ClassFile.Layout

/-!
# Reading class files

A file that is laid out as a class file is read part by part: its texts are decoded one by one, and then the
class name is looked up. What has a name is laid out so.
-/

namespace ClassScope

/-! ## Numbers of two bytes -/

namespace ClassFile

theorem take_of_length {n : Nat} {front : Bytes} (h : front.length = n) (rest : Bytes) :
    take n (front ++ rest) = .ok (front, rest) := by
  rw [take, ← h, Bytes.take?_append]

theorem eq_append_of_take {n : Nat} {bs front rest : Bytes} (h : take n bs = .ok (front, rest)) :
    bs = front ++ rest ∧ front.length = n := by
  unfold take at h
  split at h
  · rename_i r hr
    cases h
    exact Bytes.eq_append_of_take? hr
  · cases h

theorem length_encodeNumber (n : Nat) : (encodeNumber n).length = 2 := by
  rw [encodeNumber, List.length_reverse, Bytes.length_ofNat]

theorem number_encodeNumber {n : Nat} (h : n < Bytes.capacity 2) (rest : Bytes) :
    number (encodeNumber n ++ rest) = .ok (n, rest) := by
  have hn : Bytes.bigEndian (encodeNumber n) = n := by
    rw [Bytes.bigEndian, encodeNumber, List.reverse_reverse, Bytes.littleEndian_ofNat h]
  rw [number, take_of_length (length_encodeNumber n)]
  exact congrArg (fun n => Except.ok (n, rest)) hn

theorem eq_append_of_number {n : Nat} {bs rest : Bytes} (h : number bs = .ok (n, rest)) :
    bs = encodeNumber n ++ rest ∧ n < Bytes.capacity 2 := by
  unfold number at h
  cases ht : take 2 bs with
  | error e =>
      rw [ht] at h
      cases h
  | ok r =>
      obtain ⟨front, left⟩ := r
      rw [ht] at h
      cases h
      obtain ⟨rfl, hlength⟩ := eq_append_of_take ht
      have hreverse : front.reverse.length = 2 := by rw [List.length_reverse, hlength]
      have hback := Bytes.ofNat_littleEndian front.reverse
      have hlt := Bytes.littleEndian_lt front.reverse
      rw [hreverse] at hback hlt
      refine ⟨?_, hlt⟩
      rw [encodeNumber, Bytes.bigEndian, hback, List.reverse_reverse]

/-! ## Constants -/

namespace Kind

theorem plainSize?_tag (k : Kind) : plainSize? (Bytes.littleEndian [k.tag]) = some k.size := by
  cases k <;> rfl

theorem isWide_tag (k : Kind) : ClassFile.isWide (Bytes.littleEndian [k.tag]) = k.isWide := by
  cases k <;> rfl

theorem tag_ne (k : Kind) : Bytes.littleEndian [k.tag] ≠ 1 ∧ Bytes.littleEndian [k.tag] ≠ 7 := by
  cases k <;> decide

theorem exists_of_plainSize? {b : UInt8} {n : Nat} (h : plainSize? (Bytes.littleEndian [b]) = some n) :
    ∃ k : Kind, k.tag = b ∧ k.size = n := by
  have hb : Bytes.littleEndian [b] = b.toNat := rfl
  have known (k : Kind) (hk : b.toNat = k.tag.toNat) : ∃ k : Kind, k.tag = b ∧ k.size = n := by
    obtain rfl := UInt8.toNat_inj.mp hk
    rw [plainSize?_tag] at h
    exact ⟨k, rfl, Option.some.inj h⟩
  rw [hb] at h
  unfold plainSize? at h
  split at h
  · exact known .integer ‹_›
  · exact known .float ‹_›
  · exact known .field ‹_›
  · exact known .method ‹_›
  · exact known .interfaceMethod ‹_›
  · exact known .nameAndType ‹_›
  · exact known .dynamic ‹_›
  · exact known .invokeDynamic ‹_›
  · exact known .long ‹_›
  · exact known .double ‹_›
  · exact known .string ‹_›
  · exact known .methodType ‹_›
  · exact known .moduleName ‹_›
  · exact known .packageName ‹_›
  · exact known .methodHandle ‹_›
  · cases h

end Kind

def Constant.slot? : Constant → Except Error Slot
  | text payload => ((Utf8.decodeChars payload).map .text).mapError .malformedText
  | classAt textSlot => .ok (.classAt textSlot)
  | plain _ _ => .ok .other

theorem take_one (b : UInt8) (bs : Bytes) : take 1 (b :: bs) = .ok ([b], bs) := rfl

theorem ok_bind {α β : Type} (a : α) (f : α → Except Error β) : Except.ok a >>= f = f a := rfl

theorem exists_of_bind {α β : Type} {x : Except Error α} {f : α → Except Error β} {b : β}
    (h : x >>= f = .ok b) : ∃ a, x = .ok a ∧ f a = .ok b := by
  cases x with
  | error e => cases h
  | ok a => exact ⟨a, rfl, h⟩

theorem eq_of_map_eq_ok {x : Except Error Slot} {slot : Slot} {wide wide' : Bool} {rest rest' : Bytes}
    (h : (x.map fun slot => (slot, wide, rest)) = .ok (slot, wide', rest')) :
    x = .ok slot ∧ wide = wide' ∧ rest = rest' := by
  cases x with
  | error e => cases h
  | ok slot =>
      cases h
      exact ⟨rfl, rfl, rfl⟩

theorem constant_encode {c : Constant} (h : c.Fits) (rest : Bytes) :
    constant (c.encode ++ rest) = c.slot?.map fun slot => (slot, c.isWide, rest) := by
  cases c with
  | text payload =>
      rw [Constant.encode, List.cons_append, List.append_assoc, constant, take_one, ok_bind]
      dsimp only
      rw [if_pos (show Bytes.littleEndian [1] = 1 from rfl), number_encodeNumber h, ok_bind]
      dsimp only
      rw [take_of_length rfl, ok_bind]
      dsimp only [Constant.slot?]
      cases Utf8.decodeChars payload <;> rfl
  | classAt textSlot =>
      rw [Constant.encode, List.cons_append, constant, take_one, ok_bind]
      dsimp only
      rw [if_neg (show Bytes.littleEndian [7] ≠ 1 by decide), if_pos (show Bytes.littleEndian [7] = 7 from rfl),
        number_encodeNumber h]
      rfl
  | plain kind content =>
      rw [Constant.encode, List.cons_append, constant, take_one, ok_bind]
      dsimp only
      rw [if_neg kind.tag_ne.1, if_neg kind.tag_ne.2, kind.plainSize?_tag]
      dsimp only
      rw [take_of_length h, ok_bind, kind.isWide_tag]
      rfl

/-- What is read as a constant has the form of one. -/
theorem exists_of_constant {bs : Bytes} {r : Slot × Bool × Bytes} (h : constant bs = .ok r) :
    ∃ (c : Constant) (rest : Bytes), c.Fits ∧ bs = c.encode ++ rest := by
  cases bs with
  | nil => cases h
  | cons b bs =>
      have value : Bytes.littleEndian [b] = b.toNat := rfl
      rw [constant, take_one, ok_bind] at h
      dsimp only at h
      split at h
      case isTrue hone =>
          obtain rfl : b = 1 := UInt8.toNat_inj.mp (value ▸ hone)
          obtain ⟨⟨length, left⟩, hlength, htext⟩ := exists_of_bind h
          obtain ⟨⟨payload, rest⟩, hpayload, -⟩ := exists_of_bind htext
          obtain ⟨rfl, hlt⟩ := eq_append_of_number hlength
          obtain ⟨rfl, rfl⟩ := eq_append_of_take hpayload
          exact ⟨.text payload, rest, hlt, by rw [Constant.encode, List.cons_append, List.append_assoc]⟩
      case isFalse =>
          split at h
          case isTrue hseven =>
              obtain rfl : b = 7 := UInt8.toNat_inj.mp (value ▸ hseven)
              obtain ⟨⟨textSlot, rest⟩, hslot, -⟩ := exists_of_bind h
              obtain ⟨rfl, hlt⟩ := eq_append_of_number hslot
              exact ⟨.classAt textSlot, rest, hlt, by rw [Constant.encode, List.cons_append]⟩
          case isFalse =>
              split at h
              case h_1 size hsize =>
                  obtain ⟨kind, rfl, rfl⟩ := Kind.exists_of_plainSize? hsize
                  obtain ⟨⟨content, rest⟩, hcontent, -⟩ := exists_of_bind h
                  obtain ⟨rfl, hlength⟩ := eq_append_of_take hcontent
                  exact ⟨.plain kind content, rest, hlength, by rw [Constant.encode, List.cons_append]⟩
              case h_2 => cases h

/-! ## Runs of constants -/

/-- The slots that a constant fills. -/
def Constant.slots (c : Constant) (slot : Slot) : List Slot :=
  if c.isWide then [slot, .other] else [slot]

/-- The slots that constants fill one after the other, if all their texts can be decoded. -/
def slots? : List Constant → Except Error (List Slot)
  | [] => .ok []
  | c :: pool => do
      let slot ← c.slot?
      let slots ← slots? pool
      return c.slots slot ++ slots

theorem constants_pos {n : Nat} (h : 0 < n) (bs : Bytes) : constants n bs = (do
    let (slot, wide, bs) ← constant bs
    let (slots, bs) ← constants (n - if wide then 2 else 1) bs
    return (if wide then slot :: .other :: slots else slot :: slots, bs)) := by
  cases n with
  | zero => cases h
  | succ n =>
      cases n with
      | zero =>
          rw [constants]
          cases constant bs with
          | error e => rfl
          | ok r =>
              obtain ⟨slot, wide, rest⟩ := r
              cases wide <;> rfl
      | succ n =>
          rw [constants]
          cases constant bs with
          | error e => rfl
          | ok r =>
              obtain ⟨slot, wide, rest⟩ := r
              cases wide <;> rfl

theorem constants_encodeAll {n : Nat} {pool : List Constant} (hfits : ∀ c ∈ pool, c.Fits)
    (h : Fills n pool) (rest : Bytes) :
    constants n (encodeAll pool ++ rest) = (slots? pool).map fun slots => (slots, rest) := by
  induction pool generalizing n with
  | nil =>
      obtain rfl := fills_nil.mp h
      rfl
  | cons c pool ih =>
      obtain ⟨hn, hpool⟩ := fills_cons.mp h
      have hcons : encodeAll (c :: pool) ++ rest = c.encode ++ (encodeAll pool ++ rest) := by
        rw [encodeAll, List.flatMap_cons, List.append_assoc, encodeAll]
      have hrest := ih (fun d hd => hfits d (List.mem_cons_of_mem c hd)) hpool
      rw [hcons, constants_pos hn, constant_encode (hfits c List.mem_cons_self), slots?]
      cases c.slot? with
      | error e => rfl
      | ok slot =>
          have step : constants (n - if c.isWide then 2 else 1) (encodeAll pool ++ rest) =
            (slots? pool).map fun slots => (slots, rest) := hrest
          simp only [Except.map, ok_bind, step, Constant.slots]
          cases slots? pool <;> cases c.isWide <;> rfl

theorem exists_of_constants {n : Nat} {bs : Bytes} {r : List Slot × Bytes} (h : constants n bs = .ok r) :
    ∃ pool, (∀ c ∈ pool, c.Fits) ∧ Fills n pool ∧ bs = encodeAll pool ++ r.2 := by
  induction n using Nat.strongRecOn generalizing bs r with
  | _ n ih =>
      rcases Nat.eq_zero_or_pos n with rfl | hn
      · rw [constants] at h
        cases h
        exact ⟨[], nofun, fills_nil.mpr rfl, rfl⟩
      · rw [constants_pos hn] at h
        obtain ⟨⟨slot, wide, left⟩, hfirst, hothers⟩ := exists_of_bind h
        obtain ⟨⟨slots, rest⟩, hrest, hr⟩ := exists_of_bind hothers
        obtain ⟨c, tail, hc, rfl⟩ := exists_of_constant hfirst
        rw [constant_encode hc] at hfirst
        obtain ⟨-, rfl, rfl⟩ := eq_of_map_eq_ok hfirst
        cases hr
        have hless : n - c.width < n := by
          unfold Constant.width
          split <;> omega
        obtain ⟨pool, hpool, hfills, rfl⟩ := ih (n - c.width) hless hrest
        refine ⟨c :: pool, ?_, fills_cons.mpr ⟨hn, hfills⟩, ?_⟩
        · intro d hd
          rcases List.mem_cons.mp hd with rfl | hd
          · exact hc
          · exact hpool d hd
        · rw [encodeAll, encodeAll, List.flatMap_cons, List.append_assoc]

/-! ## Files -/

/-- Once the texts are decoded, all that is left is to look the name up. -/
theorem readName_encode (f : File) : readName f.encode = (do
    let slots ← slots? f.pool
    let cs ← className (.other :: slots) f.thisClass
    return String.ofList (ClassName.dotted cs)) := by
  have hversion (rest : Bytes) : f.version ++ rest = f.version.take 2 ++ (f.version.drop 2 ++ rest) := by
    rw [← List.append_assoc, List.take_append_drop]
  have hmajor : (f.version.take 2).length = 2 := by rw [List.length_take, f.length_version]; rfl
  have hminor : (f.version.drop 2).length = 2 := by rw [List.length_drop, f.length_version]
  rw [readName, File.encode]
  simp only [List.append_assoc]
  rw [take_of_length (show magic.length = 4 from rfl), ok_bind]
  dsimp only
  rw [if_neg (by simp), hversion, take_of_length hmajor, ok_bind]
  dsimp only
  rw [take_of_length hminor, ok_bind]
  dsimp only
  rw [number_encodeNumber f.count_lt, ok_bind]
  dsimp only
  rw [constants_encodeAll f.fits f.fills]
  cases slots? f.pool with
  | error e => rfl
  | ok slots =>
      simp only [Except.map, ok_bind]
      rw [take_of_length f.length_access, ok_bind]
      dsimp only
      rw [number_encodeNumber f.thisClass_lt, ok_bind]

/-- What has a name is laid out as a class file. -/
theorem exists_of_readName {bs : Bytes} {name : String} (h : readName bs = .ok name) :
    ∃ f : File, f.encode = bs := by
  obtain ⟨⟨front, left⟩, hmagic, hrest⟩ := exists_of_bind h
  dsimp only at hrest
  split at hrest
  case isTrue => cases hrest
  case isFalse hfront =>
      obtain rfl : front = magic := Decidable.not_not.mp hfront
      obtain ⟨⟨minor, left₁⟩, hminor, hrest₁⟩ := exists_of_bind hrest
      obtain ⟨⟨major, left₂⟩, hmajor, hrest₂⟩ := exists_of_bind hrest₁
      obtain ⟨⟨count, left₃⟩, hcount, hrest₃⟩ := exists_of_bind hrest₂
      obtain ⟨⟨slots, left₄⟩, hslots, hrest₄⟩ := exists_of_bind hrest₃
      obtain ⟨⟨access, left₅⟩, haccess, hrest₅⟩ := exists_of_bind hrest₄
      obtain ⟨⟨thisClass, rest⟩, hclass, -⟩ := exists_of_bind hrest₅
      obtain ⟨rfl, -⟩ := eq_append_of_take hmagic
      obtain ⟨rfl, minorLength⟩ := eq_append_of_take hminor
      obtain ⟨rfl, majorLength⟩ := eq_append_of_take hmajor
      obtain ⟨rfl, countFits⟩ := eq_append_of_number hcount
      obtain ⟨pool, hfits, hfills, rfl⟩ := exists_of_constants hslots
      obtain ⟨rfl, accessLength⟩ := eq_append_of_take haccess
      obtain ⟨rfl, classFits⟩ := eq_append_of_number hclass
      have hversion : (minor ++ major).length = 4 := by
        rw [List.length_append, minorLength, majorLength]
      refine ⟨.ofFills hversion accessLength countFits classFits hfits hfills rest, ?_⟩
      simp only [File.encode, File.ofFills, List.append_assoc]

end ClassFile

end ClassScope
