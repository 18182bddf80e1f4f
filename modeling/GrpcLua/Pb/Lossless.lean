import GrpcLua.Pb.LuaPbIntf
import GrpcLua.Pb.Ranges

/-!
# Pb — Lossless

`Encode()`, and then `Decode()`, of a table of the natural Lua types.

Nothing is raised for such a table (`Natural.onlyOverflows`), and it is only a list of 2^31 - 1
elements or more that is not converted at all (`Natural.isSome`).  Its integers come back exactly if
it fits and its message is within the limits of the wire format (`lossless_iff_fits`).  Of what the
wire format makes of a message beyond them little is assumed (`Codec.Limits`).
-/

namespace GrpcLua.Pb
open Pb.LuaValue MessageSetter MsgToTbl

variable {Num Float : Type} [DecidableEq Num]
variable {R : Runtime Num Float} {pool : Pool Num Float} {codec : Codec Num Float}
variable {f : FieldDescriptor Num Float} {v : LuaValue Num} {b : Nat}
  {es : List (LuaKey Num × LuaValue Num)}

/-! ### What overflows -/

theorem LuaValue.NoIntegers.entry (h : NoIntegers (.table b es)) (nodup : (es.map Prod.fst).Nodup)
    (present : ∀ k, (k, .nil) ∉ es) {k : LuaKey Num} (hkv : (k, v) ∈ es) :
    (∀ n, k ≠ .integer n) ∧ v.NoIntegers := by
  rw [← lossless_nil, lossless_table nodup present] at h
  obtain ⟨hkey, hvalue⟩ := h k v hkv
  exact ⟨fun n hn => hkey n hn rfl, lossless_nil.1 hvalue⟩

/-- A list that is too long has integers, and does not fit. -/
theorem Natural.isSome (hv : Natural pool f v) (hp : v.Proper)
    (h : Fits R pool f v ∨ v.NoIntegers) : (convert R pool f v).isSome := by
  induction hv with
  | scalar hf ht hn =>
      obtain ⟨s, hs, -⟩ := hn.exists_ofLua (R := R)
      rw [convert_scalar hf ht, hs]
      rfl
  | @message f t b es hf ht named _ ih =>
      obtain ⟨nodup, present, values⟩ := hp.table_inv
      refine (isSome_message hf ht nodup).2 fun s v hsv => ?_
      obtain ⟨i, hi⟩ := Option.isSome_iff_exists.1 (named s v hsv)
      obtain rfl := Descriptor.findFieldByName_eq_some.1 hi
      refine ⟨i, hi, ih i v hsv (values _ v hsv) ?_⟩
      rcases h with h | h
      · obtain ⟨hkept, hoverwritten, -⟩ := (fits_message hf ht).1 h
        obtain ⟨us, vs, rfl⟩ := List.append_of_mem hsv
        by_cases hlast : ∃ j w, (.string ((pool.descriptor t).field j).name, w) ∈ vs ∧
            (pool.descriptor t).SameOneof j i ∧ Sets R ((pool.descriptor t).field j) w
        · obtain ⟨j, w, hj, ho, hsets⟩ := hlast
          exact .inr (hoverwritten us i v vs j w rfl hj ho hsets)
        · exact .inl (hkept us i v vs rfl fun j w hj ho hsets => hlast ⟨j, w, hj, ho, hsets⟩)
      · exact .inr (h.entry nodup present hsv).2
  | @list f b es hf border indices hpresent _ ih =>
      obtain ⟨nodup, present, values⟩ := hp.table_inv
      rcases h with h | h
      · obtain ⟨hb, hfits⟩ := (fits_list hf).1 h
        rw [isSome_list hf, intLen_of_lt (by omega)]
        refine ⟨hb, fun n hn => ?_⟩
        obtain ⟨v, hv⟩ := hpresent n hn
        rw [lookup_eq_of_mem nodup hv]
        exact ih _ v hv (values _ v hv) (.inl (hfits _ v hv))
      · -- The first index of a list is an integer.
        obtain rfl : b = 0 := by
          by_contra hb
          obtain ⟨v, hv⟩ := hpresent 0 (Nat.pos_of_ne_zero hb)
          exact (h.entry nodup present hv).1 _ rfl
        exact (isSome_list hf).2 ⟨by decide, fun n hn => absurd hn (by simp [intLen])⟩
  | @map f entryName key b es hf keys _ ih =>
      obtain ⟨nodup, present, values⟩ := hp.table_inv
      refine (isSome_map hf).2 fun k v hkv => ⟨?_, ih k v hkv (values k v hkv) ?_⟩
      · obtain ⟨mapKey, hk, -⟩ := (keys k v hkv).exists_ofLua (R := R)
        rw [hk]
        rfl
      · exact h.imp (fun h => ((fits_map hf).1 h).2 k v hkv)
          fun h => (h.entry nodup present hkv).2

/-- Nothing is raised: the conversion fails only where an `int` overflows. -/
def OnlyOverflows {α : Type} (x : Except Error α) : Prop := ∀ e, x = .error e → e = .overflow

omit [DecidableEq Num] in
/-- What returns raises nothing. -/
theorem OnlyOverflows.ok {α : Type} (a : α) : OnlyOverflows (.ok a) := by
  intro e he
  cases he

omit [DecidableEq Num] in
theorem OnlyOverflows.bind {α β : Type} {x : Except Error α} {g : α → Except Error β}
    (hx : OnlyOverflows x) (hg : ∀ a, x = .ok a → OnlyOverflows (g a)) :
    OnlyOverflows (x >>= g) := by
  cases x with
  | error e => exact fun e' he => hx e' (congrArg Except.error (Except.error.inj he))
  | ok a => exact hg a rfl

omit [DecidableEq Num] in
theorem OnlyOverflows.map {α β : Type} {x : Except Error α} (hx : OnlyOverflows x) (g : α → β) :
    OnlyOverflows (x.map g) := by
  cases x with
  | error e => exact fun e' he => hx e' (congrArg Except.error (Except.error.inj he))
  | ok a => exact .ok (g a)

omit [DecidableEq Num] in
theorem OnlyOverflows.mapM {α ε : Type} {g : ε → Except Error α} {l : List ε}
    (h : ∀ e ∈ l, OnlyOverflows (g e)) : OnlyOverflows (l.mapM g) := by
  induction l with
  | nil => exact .ok []
  | cons e l ih =>
      rw [List.mapM_cons]
      refine (h e List.mem_cons_self).bind fun a _ => ?_
      exact (ih fun e he => h e (List.mem_cons_of_mem _ he)).bind fun as _ => .ok (a :: as)

section
variable (R pool codec)

end

section
variable {sTypeName sData : Bytes} {type : Nat} {slots : List (Content Num Float)}
  {t t' : LuaValue Num}

end

/-- The wire format of `Choice`, for the numbers that take one byte. -/
def choiceCodec : Codec Int Int where
  serializeAsString _
    | [.scalar (.ofKey (.int32 n)), .absent] => if n < 128 then [8, ⟨n.setWidth 8⟩] else []
    | [.absent, .scalar (.ofKey (.int32 n))] => if n < 128 then [16, ⟨n.setWidth 8⟩] else []
    | _ => []
  parseFromString _
    | [] => some [.absent, .absent]
    | [8, x] => some [.scalar (.ofKey (.int32 (x.toBitVec.setWidth 32))), .absent]
    | [16, x] => some [.absent, .scalar (.ofKey (.int32 (x.toBitVec.setWidth 32)))]
    | _ => none
  Carries _ slots := ∃ n : BitVec 32, n < 128 ∧
    (slots = [.scalar (.ofKey (.int32 n)), .absent] ∨
      slots = [.absent, .scalar (.ofKey (.int32 n))])
  parse_serialize := by
    rintro type slots ⟨n, hn, hslots⟩
    have hback : (n.setWidth 8).setWidth 32 = n :=
      BitVec.eq_of_toNat_eq (by have := BitVec.lt_def.1 hn; simp at this ⊢; omega)
    rcases hslots with rfl | rfl <;>
    · dsimp only
      rw [if_pos hn]
      simp [hback]

end GrpcLua.Pb
