import ITrace.LinuxSocket.SocketInfo

/-!
# What `init_socket_info` stores

A string that just fits its array is written with one zero byte too many. The one of `ip` spills
into `port`, which is written after it; the one of `desc` spills into `rsv`, which is not written
any more.
-/

namespace ITrace.LinuxSocket

open ITrace

/-- The string in the array of `size` bytes at `a`. -/
def stringIn (m : Mem UInt8) (a size : Nat) : Option (List UInt8) := stringAt (m.load a size) 0

section
variable {m : Mem UInt8} {a b size : Nat} {s : CString} {bs : List UInt8}

theorem length_sprintf (s : CString) : (sprintf (s.chars ++ [0])).length = s.chars.length + 2 := by
  rw [sprintf, List.length_append, List.length_append, List.length_singleton]

/-- A string is read back from its array if there is room for its terminator. -/
theorem stringIn_sprintf (hs : s.chars.length < size) :
    stringIn (m.store a (sprintf (s.chars ++ [0]))) a size = some s.chars := by
  obtain ⟨k, rfl⟩ := Nat.exists_eq_add_of_lt hs
  have hlen : (s.chars ++ [0]).length = s.chars.length + 1 := by
    rw [List.length_append, List.length_singleton]
  have hstring : (m.store a (sprintf (s.chars ++ [0]))).load a (s.chars.length + 1) =
      s.chars ++ [0] := by
    rw [sprintf, ← Mem.store_store, Mem.load_store_of_disjoint _ _ (.inl (by omega)), ← hlen,
      Mem.load_store_same]
  have hsize : s.chars.length + k + 1 = s.chars.length + 1 + k := by omega
  rw [stringIn, hsize, Mem.load_add, hstring, List.append_assoc]
  exact stringAt_zero s.zero_notMem _

theorem stringIn_store (h : a + size ≤ b ∨ b + bs.length ≤ a) :
    stringIn (m.store b bs) a size = stringIn m a size := by
  rw [stringIn, stringIn, Mem.load_store_of_disjoint _ _ h]

end

/-- The `SocketInfo` at `a` holds what it was given, with its `rsv` as before in `m`, and nothing
was written outside it. -/
structure Stored (m : Mem UInt8) (a : Nat) (ip : CString) (port : UInt32) (desc : CString)
    (out : Logged UInt8) : Prop where
  ip_eq : stringIn out.mem a SocketInfo.ipSize = some ip.chars
  desc_eq : stringIn out.mem (a + SocketInfo.desc) SocketInfo.descSize = some desc.chars
  port_eq : LittleEndian.load out.mem (a + SocketInfo.port) = port
  rsv_eq : LittleEndian.load out.mem (a + SocketInfo.rsv) =
    LittleEndian.load m (a + SocketInfo.rsv)
  inside : ∀ x ∈ out.written, a ≤ x ∧ x < a + SocketInfo.size

section
variable {m : Mem UInt8} {a : Nat} {ip desc : CString} {port : UInt32}

theorem initSocketInfo_mem (m : Mem UInt8) (a : Nat) (ip : CString) (port : UInt32)
    (desc : CString) : (initSocketInfo (.start m) a ip port desc).mem =
      ((m.store (a + 68) (sprintf (desc.chars ++ [0]))).store a (sprintf (ip.chars ++ [0]))).store
        (a + 64) (LittleEndian.bytes port) := rfl

/-- What comes after `desc` is changed by the last zero byte of `desc` at most. -/
theorem load_behind_desc (hip : ip.chars.length ≤ 63) {x : Nat} (n : Nat)
    (hx : a + 68 + desc.chars.length + 2 ≤ x) :
    (initSocketInfo (.start m) a ip port desc).mem.load x n = m.load x n := by
  have hipLen := length_sprintf ip
  have hdescLen := length_sprintf desc
  have hportLen := LittleEndian.length_bytes port
  rw [initSocketInfo_mem, Mem.load_store_of_disjoint _ _ (.inr (by omega)),
    Mem.load_store_of_disjoint _ _ (.inr (by omega)),
    Mem.load_store_of_disjoint _ _ (.inr (by omega))]

/-- The byte after a `desc` of 127 characters and its terminator. -/
theorem spilled_byte (hip : ip.chars.length ≤ 63) (hdesc : desc.chars.length = 127) :
    (initSocketInfo (.start m) a ip port desc).mem (a + 196) = 0 := by
  have hipLen := length_sprintf ip
  have hportLen := LittleEndian.length_bytes port
  have hlen : (desc.chars ++ [0]).length = 128 := by
    rw [List.length_append, List.length_singleton, hdesc]
  have hbyte : (initSocketInfo (.start m) a ip port desc).mem.load (a + 68 + 128) 1 = [0] := by
    rw [initSocketInfo_mem, Mem.load_store_of_disjoint _ _ (.inr (by omega)),
      Mem.load_store_of_disjoint _ _ (.inr (by omega)), sprintf, ← Mem.store_store, hlen]
    exact Mem.load_store_same _ _ [0]
  exact (List.cons.inj hbyte).1

/-- `rsv` keeps its value if the last zero byte of `desc` is not written into it, or changes
nothing there. -/
theorem rsv_kept_iff (hip : ip.chars.length ≤ 63) (hdesc : desc.chars.length ≤ 127) :
    LittleEndian.load (initSocketInfo (.start m) a ip port desc).mem (a + 196) =
        LittleEndian.load m (a + 196) ↔
      desc.chars.length ≤ 126 ∨ m (a + 196) = 0 := by
  rw [LittleEndian.load_eq_iff (load_behind_desc hip 3 (by omega))]
  by_cases hshort : desc.chars.length ≤ 126
  · have hbyte : (initSocketInfo (.start m) a ip port desc).mem.load (a + 196) 1 =
        m.load (a + 196) 1 := load_behind_desc hip 1 (by omega)
    exact iff_of_true (List.cons.inj hbyte).1 (.inl hshort)
  · rw [spilled_byte hip (by omega)]
    simp [hshort, eq_comm]

theorem written_inside (hip : ip.chars.length ≤ 63) (hdesc : desc.chars.length ≤ 127) {x : Nat}
    (hx : x ∈ (initSocketInfo (.start m) a ip port desc).written) : a ≤ x ∧ x < a + 200 := by
  have hportLen := LittleEndian.length_bytes port
  rw [initSocketInfo, Logged.mem_written_write, Logged.mem_written_write, Logged.mem_written_write,
    length_sprintf, length_sprintf, hportLen, Logged.start_written] at hx
  simp only [List.not_mem_nil, false_or, SocketInfo.desc, SocketInfo.port] at hx
  omega

end

/-- For every address and content of a `SocketInfo`, every `ip` and `desc` that fit their arrays and
every port: `init_socket_info` stores them and changes nothing else exactly if `desc` has less than
127 characters or the lowest byte of `rsv` is 0 already. -/
theorem initSocketInfo_stored (m : Mem UInt8) (a : Nat) (ip desc : CString) (port : UInt32)
    (hip : ip.chars.length ≤ 63) (hdesc : desc.chars.length ≤ 127) :
    Stored m a ip port desc (initSocketInfo (.start m) a ip port desc) ↔
      desc.chars.length ≤ 126 ∨ m (a + SocketInfo.rsv) = 0 := by
  have hipLen := length_sprintf ip
  have hportLen := LittleEndian.length_bytes port
  have hkept : LittleEndian.load (initSocketInfo (.start m) a ip port desc).mem (a + 196) =
      LittleEndian.load m (a + 196) ↔ _ := rsv_kept_iff hip hdesc
  rw [SocketInfo.rsv, ← hkept]
  constructor
  · intro h
    exact h.rsv_eq
  · intro hrsv
    refine ⟨?_, ?_, ?_, hrsv, fun x => written_inside hip hdesc⟩
    · rw [initSocketInfo_mem, SocketInfo.ipSize, stringIn_store (.inl (Nat.le_refl _)),
        stringIn_sprintf (by omega)]
    · rw [initSocketInfo_mem, SocketInfo.desc, SocketInfo.descSize, stringIn_store (.inr (by omega)),
        stringIn_store (.inr (by omega)), stringIn_sprintf (by omega)]
    · apply LittleEndian.load_of_bytes
      rw [initSocketInfo_mem, SocketInfo.port]
      exact Mem.load_store_same _ _ _

/-- The strings `a` and `b`, and the port 9100. -/
theorem initSocketInfo_stored_short :
    Stored (fun _ => 7) 1000 ⟨['a'.toUInt8], by decide⟩ 9100 ⟨['b'.toUInt8], by decide⟩
      (initSocketInfo (.start fun _ => 7) 1000 ⟨['a'.toUInt8], by decide⟩ 9100
        ⟨['b'.toUInt8], by decide⟩) := by
  apply (initSocketInfo_stored _ _ _ _ _ (by decide) (by decide)).mpr
  exact .inl (by decide)

/-- With a `desc` of 127 characters, an `rsv` of 101 becomes 0. -/
theorem rsv_not_kept :
    ∃ (m : Mem UInt8) (desc : CString), desc.chars.length = 127 ∧
      LittleEndian.load m (0 + SocketInfo.rsv) = 101 ∧
      LittleEndian.load (initSocketInfo (.start m) 0 ⟨['a'.toUInt8], by decide⟩ 9100 desc).mem
        (0 + SocketInfo.rsv) = 0 ∧
      ¬ Stored m 0 ⟨['a'.toUInt8], by decide⟩ 9100 desc
        (initSocketInfo (.start m) 0 ⟨['a'.toUInt8], by decide⟩ 9100 desc) := by
  have hzero : 0 ∉ List.replicate 127 'd'.toUInt8 := by
    intro h
    exact absurd (List.eq_of_mem_replicate h) (by decide)
  have hdesc : (⟨_, hzero⟩ : CString).chars.length = 127 := List.length_replicate
  generalize (⟨_, hzero⟩ : CString) = desc at hdesc
  have hip : (⟨['a'.toUInt8], by decide⟩ : CString).chars.length ≤ 63 := by decide
  generalize (⟨['a'.toUInt8], by decide⟩ : CString) = ip at hip
  let m : Mem UInt8 := fun x => if x = 196 then 101 else 0
  refine ⟨m, desc, hdesc, by decide, ?_, fun h => ?_⟩
  · have hbyte : (initSocketInfo (.start m) 0 ip 9100 desc).mem (0 + 196) = 0 :=
      spilled_byte hip hdesc
    have hrest : (initSocketInfo (.start m) 0 ip 9100 desc).mem.load (0 + 196 + 1) 3 =
        m.load (0 + 196 + 1) 3 := load_behind_desc hip 3 (by omega)
    have hzeros : m.load (0 + 196 + 1) 3 = Mem.load (fun _ => 0) (0 + 196 + 1) 3 := by decide
    exact (LittleEndian.load_eq_iff (hrest.trans hzeros)).mpr hbyte
  · have hshort := (rsv_kept_iff hip (Nat.le_of_eq hdesc)).mp h.rsv_eq
    rw [hdesc] at hshort
    exact absurd hshort (by decide)

end ITrace.LinuxSocket
