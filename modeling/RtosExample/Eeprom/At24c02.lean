import RtosExample.Eeprom.Framing
import RtosExample.Lib.Memory

/-! # The AT24C02 behind the EEPROM module

The chip is no part of the sources; `chip` is what its data sheet promises, as a slave of
`Lib.ByteBus`. It holds 256 bytes in pages of 8. After START and its write address the next byte is
the address pointer, and further bytes are stored there, the pointer rolling over inside its page
(`pageNext`); after START and its read address it hands out bytes from the pointer on, over the
whole chip (`byteNext`). Outside a transaction it ignores what is sent. Its write cycle takes no
time here.

`write_page` and `read_page` are the two calls of the module on the chip. A range that lies in one
page comes back, and nothing else changes; one that does not loses the bytes behind the page end
(`round_trip_iff`). -/

namespace RtosExample.Eeprom.At24c02

open RtosExample.Cint RtosExample.Lib.ByteBus RtosExample.Lib.Memory
open RtosExample.I2c.Bytes RtosExample.I2c.Core RtosExample.Eeprom.Driver
open RtosExample.Eeprom.Framing

/-! ### The chip -/

/-- What the next byte on the bus is to the chip. -/
inductive Mode
  /-- Nothing. -/
  | idle
  /-- A device address. -/
  | called
  /-- The address pointer. -/
  | pointer
  /-- Data to store. -/
  | writing
  /-- Data it hands out. -/
  | reading
  deriving DecidableEq, Repr

structure Chip where
  mem : U8 → U8
  ptr : U8
  mode : Mode

/-- The pointer after a byte was stored: the next address of the same 8-byte page. -/
def pageNext (p : U8) : U8 := BitVec.ofNat 8 (p.toNat / 8 * 8 + (p.toNat + 1) % 8)

/-- The pointer after a byte was handed out. -/
def byteNext (p : U8) : U8 := p + 1

/-- A byte sent to the chip. -/
def Chip.take (b : U8) (c : Chip) : Answer × Chip :=
  match c.mode with
  | .called =>
    if b = writeAddr then (.ack, { c with mode := .pointer })
    else if b = readAddr then (.ack, { c with mode := .reading })
    else (.nack, { c with mode := .idle })
  | .pointer => (.ack, { c with ptr := b, mode := .writing })
  | .writing => (.ack, { c with mem := Function.update c.mem c.ptr b, ptr := pageNext c.ptr })
  | .idle | .reading => (.nack, c)

/-- A byte asked of the chip. When it is not reading it leaves SDA released, and the eight ones are
a byte sent to it. -/
def Chip.give (c : Chip) : Option U8 × Chip :=
  match c.mode with
  | .reading => (some (c.mem c.ptr), { c with ptr := byteNext c.ptr })
  | _ => (some 0xFF, (c.take 0xFF).2)

/-- The answer to a byte it handed out: without an acknowledge it stops. -/
def Chip.heard (ack : Bool) (c : Chip) : Bool × Chip :=
  (true, if c.mode = .reading ∧ !ack then { c with mode := .idle } else c)

/-- The chip as a slave. -/
def chip : Slave Chip where
  start c := (true, { c with mode := .called })
  restart c := (true, { c with mode := .called })
  stop c := (true, { c with mode := .idle })
  put := Chip.take
  get := Chip.give
  reply := Chip.heard

/-! ### The pointer -/

theorem pageNext_toNat (p : U8) :
    (pageNext p).toNat = p.toNat / 8 * 8 + (p.toNat + 1) % 8 := by
  have h := p.isLt
  unfold pageNext
  rw [BitVec.toNat_ofNat]
  omega

/-- The pointer never leaves its page while it stores. -/
theorem pageNext_iterate_page (p : U8) : ∀ k : ℕ, (pageNext^[k] p).toNat / 8 = p.toNat / 8
  | 0 => rfl
  | k + 1 => by
    have h := pageNext_toNat (pageNext^[k] p)
    have ih := pageNext_iterate_page p k
    rw [Function.iterate_succ_apply']
    omega

theorem pageNext_iterate {p : U8} : ∀ {k : ℕ}, p.toNat % 8 + k < 8 →
    (pageNext^[k] p).toNat = p.toNat + k
  | 0, _ => rfl
  | k + 1, h => by
    have hn := pageNext_toNat (pageNext^[k] p)
    have ih := pageNext_iterate (p := p) (k := k) (by omega)
    rw [Function.iterate_succ_apply']
    omega

theorem byteNext_iterate (p : U8) : ∀ k : ℕ, (byteNext^[k] p).toNat = (p.toNat + k) % 256
  | 0 => by
    have := p.isLt
    simp only [Function.iterate_zero_apply]
    omega
  | k + 1 => by
    have ih := byteNext_iterate p k
    rw [Function.iterate_succ_apply', byteNext, BitVec.toNat_add, ih]
    simp
    omega

/-! ### Bytes to and from the chip -/

theorem puts_writing : ∀ (bs : List U8) (c : Chip), c.mode = .writing →
    AcksAll chip bs c ∧ ∃ p, puts chip bs c =
      { mem := store pageNext bs c.ptr c.mem, ptr := p, mode := .writing }
  | [], c, h => ⟨trivial, c.ptr, by rw [puts_nil, store, ← h]⟩
  | b :: bs, c, h => by
    have hb : chip.put b c =
        (.ack, { c with mem := Function.update c.mem c.ptr b, ptr := pageNext c.ptr }) := by
      change c.take b = _
      simp only [Chip.take, h]
    obtain ⟨h1, p, h2⟩ := puts_writing bs
      { c with mem := Function.update c.mem c.ptr b, ptr := pageNext c.ptr } h
    exact ⟨⟨by rw [hb], by rw [hb]; exact h1⟩, p, by rw [puts_cons, hb, h2]; rfl⟩

theorem takes_reading (n : ℕ) : ∀ c : Chip, c.mode = .reading →
    ∃ c', takes chip n c = some (load byteNext c.mem n c.ptr, c') ∧ c'.mem = c.mem := by
  induction n with
  | zero => exact fun c _ => ⟨c, rfl, rfl⟩
  | succ n ih =>
    intro c h
    have hg : chip.get c = (some (c.mem c.ptr), { c with ptr := byteNext c.ptr }) := by
      change c.give = _
      simp only [Chip.give, h]
    rcases n with _ | n
    · have hr : chip.reply (0 != 0) { c with ptr := byteNext c.ptr } =
          (true, { c with ptr := byteNext c.ptr, mode := .idle }) := by
        change Chip.heard _ _ = _
        simp [Chip.heard, h]
      exact ⟨{ c with ptr := byteNext c.ptr, mode := .idle }, by rw [takes_succ chip hg hr]; rfl,
        rfl⟩
    · have hr : chip.reply (n + 1 != 0) { c with ptr := byteNext c.ptr } =
          (true, { c with ptr := byteNext c.ptr }) := by
        change Chip.heard _ _ = _
        simp [Chip.heard]
      obtain ⟨c', ht, hm⟩ := ih { c with ptr := byteNext c.ptr } h
      refine ⟨c', ?_, hm⟩
      rw [takes_succ chip hg hr, ht]
      rfl

/-! ### The two calls on the chip -/

/-- **`write_data` on the chip** stores the data from the start address on, within its page. -/
theorem write_page {bus : Bus Chip} {data : List U8} {len : U32} {page : U8}
    (hl : len.toNat ≤ 65535) (hd : len.toNat ≤ data.length) (hh : bus.held = false) :
    ∃ bus', writeData (bytewise chip) (some bus) data len page = .ok (none, bus') ∧
      bus'.held = false ∧
      bus'.dev.mem = store pageNext (data.take len.toNat) page bus.dev.mem := by
  obtain ⟨h1, p, h2⟩ := puts_writing (data.take len.toNat)
    { bus.dev with ptr := page, mode := .writing } rfl
  refine ⟨_, writeData_acks chip page hl hd hh ⟨rfl, rfl, h1⟩ rfl, rfl, ?_⟩
  change (puts chip (data.take len.toNat) { bus.dev with ptr := page, mode := .writing }).mem = _
  rw [h2]

/-- **`read_data` on the chip** hands back the bytes from the start address on and leaves them. -/
theorem read_page {bus : Bus Chip} {buf : List U8} {len : U32} {page : U8}
    (hl : len.toNat ≤ 65535) (hh : bus.held = false) :
    ∃ bus', readData (bytewise chip) (some bus) buf len page =
        .ok (none, load byteNext bus.dev.mem len.toNat page ++ buf.drop len.toNat, bus') ∧
      bus'.held = false ∧ bus'.dev.mem = bus.dev.mem := by
  obtain ⟨c', ht, hm⟩ := takes_reading len.toNat
    { bus.dev with ptr := page, mode := .reading } rfl
  have hr := readData_takes chip buf hl hh ⟨rfl, rfl, trivial⟩ rfl rfl rfl ht
  rw [length_load] at hr
  exact ⟨_, hr, rfl, hm⟩

/-! ### The round trip -/

/-- Writing `data` at `page` and reading it back: the buffer is filled with the data, and what lies
outside its range is as before. -/
def RoundTrip (bus : Bus Chip) (data buf : List U8) (len : U32) (page : U8) : Prop :=
  ∃ bus₁ bus₂, writeData (bytewise chip) (some bus) data len page = .ok (none, bus₁) ∧
    readData (bytewise chip) (some bus₁) buf len page = .ok (none, data, bus₂) ∧
    ∀ a : U8, a.toNat < page.toNat ∨ page.toNat + len.toNat ≤ a.toNat →
      bus₂.dev.mem a = bus.dev.mem a

theorem roundTrip_iff_mem {bus : Bus Chip} {data buf : List U8} {len : U32} {page : U8}
    (hh : bus.held = false) (hl : len.toNat ≤ 65535) (hd : data.length = len.toNat)
    (hb : buf.length = len.toNat) :
    RoundTrip bus data buf len page ↔
      load byteNext (store pageNext data page bus.dev.mem) data.length page = data ∧
      ∀ a : U8, a.toNat < page.toNat ∨ page.toNat + data.length ≤ a.toNat →
        store pageNext data page bus.dev.mem a = bus.dev.mem a := by
  obtain ⟨bus₁, hw, hh₁, hm₁⟩ := write_page hl hd.ge hh
  obtain ⟨bus₂, hr, -, hm₂⟩ := read_page hl hh₁
  rw [List.take_of_length_le hd.le] at hm₁
  rw [List.drop_of_length_le hb.le, List.append_nil] at hr
  rw [hd]
  constructor
  · rintro ⟨bus₁', bus₂', hw', hr', hframe⟩
    obtain rfl : bus₁ = bus₁' := congrArg Prod.snd (Except.ok.inj (hw.symm.trans hw'))
    have he := Except.ok.inj (hr.symm.trans hr')
    obtain rfl : bus₂ = bus₂' := congrArg (·.2.2) he
    have hload : load byteNext bus₁.dev.mem len.toNat page = data := congrArg (·.2.1) he
    rw [hm₁] at hload
    rw [hm₂, hm₁] at hframe
    exact ⟨hload, hframe⟩
  · rintro ⟨hload, hframe⟩
    refine ⟨bus₁, bus₂, hw, ?_, ?_⟩
    · rw [hr, hm₁, hload]
    · rw [hm₂, hm₁]
      exact hframe

theorem store_in_page {data : List U8} {page : U8} (mem : U8 → U8)
    (hp : page.toNat % 8 + data.length ≤ 8) :
    load byteNext (store pageNext data page mem) data.length page = data ∧
    ∀ a : U8, a.toNat < page.toNat ∨ page.toNat + data.length ≤ a.toNat →
      store pageNext data page mem a = mem a := by
  have hcount : ∀ k < data.length, (pageNext^[k] page).toNat = page.toNat + k := fun k hk =>
    pageNext_iterate (by omega)
  constructor
  · refine List.ext_getElem? fun k => ?_
    rcases Nat.lt_or_ge k data.length with hk | hk
    · have hsame : byteNext^[k] page = pageNext^[k] page := by
        apply BitVec.eq_of_toNat_eq
        have h1 := hcount k hk
        have h2 := (pageNext^[k] page).isLt
        rw [byteNext_iterate, h1]
        omega
      rw [getElem?_load _ _ hk, hsame]
      refine (store_iterate pageNext data page mem (fun i hi j hj he => ?_) hk).symm
      have h1 := hcount i hi
      have h2 := hcount j hj
      rw [he] at h1
      omega
    · rw [List.getElem?_eq_none (by simpa using hk), List.getElem?_eq_none hk]
  · intro a ha
    refine store_of_ne pageNext data page mem fun k hk he => ?_
    have h1 := hcount k hk
    rw [he] at h1
    omega

theorem store_other_page {data : List U8} {page a : U8} (mem : U8 → U8)
    (ha : a.toNat / 8 ≠ page.toNat / 8) : store pageNext data page mem a = mem a :=
  store_of_ne pageNext data page mem fun k _ he => ha (he ▸ pageNext_iterate_page page k)

/-- **The round trip holds for every content exactly if the range lies in one page.** -/
theorem round_trip_iff {data : List U8} {len : U32} {page : U8} (h1 : 1 ≤ len.toNat)
    (hd : data.length = len.toNat) (h256 : page.toNat + len.toNat ≤ 256) :
    (∀ (bus : Bus Chip) (buf : List U8), bus.held = false → buf.length = len.toNat →
      RoundTrip bus data buf len page) ↔ page.toNat % 8 + len.toNat ≤ 8 := by
  have hl : len.toNat ≤ 65535 := by omega
  constructor
  · intro h
    by_contra hp
    -- the first byte behind the page end, in a memory that holds something else there
    set k := 8 - page.toNat % 8 with hk
    have hklen : k < data.length := by omega
    obtain ⟨bus, hmem, hh⟩ : ∃ bus : Bus Chip, bus.dev.mem = (fun _ => data[k] + 1) ∧
        bus.held = false :=
      ⟨⟨⟨fun _ => data[k] + 1, 0, .idle⟩, false, 0, []⟩, rfl, rfl⟩
    obtain ⟨hload, -⟩ := (roundTrip_iff_mem hh hl hd hd).mp (h bus data hh hd)
    have hget := getElem?_load byteNext (store pageNext data page bus.dev.mem) (p := page) hklen
    have hother : (byteNext^[k] page).toNat / 8 ≠ page.toNat / 8 := by
      rw [byteNext_iterate]
      omega
    rw [hload, store_other_page _ hother, hmem, List.getElem?_eq_getElem hklen] at hget
    have := Option.some.inj hget
    simp at this
  · intro hp bus buf hh hb
    exact (roundTrip_iff_mem hh hl hd hb).mpr (store_in_page _ (by omega))

/-- The theorem at a block of eight bytes, aligned as in the samples of `main.c`. -/
theorem round_trip_iff_block :
    RoundTrip ⟨⟨fun _ => 0xFF, 0, .idle⟩, false, 0, []⟩ [0, 1, 2, 3, 4, 5, 6, 7]
      (List.replicate 8 0) 8 8 :=
  (@round_trip_iff [0, 1, 2, 3, 4, 5, 6, 7] 8 8 (by decide) (by decide) (by decide)).mpr
    (by decide) _ _ rfl rfl

/-- **Two bytes at the last address of a page** do not come back: the second one lands at the start
of the page, and the byte read behind the page is the old one. -/
theorem round_trip_page_end :
    ¬ ∀ (bus : Bus Chip) (data buf : List U8) (len : U32) (page : U8), bus.held = false →
      1 ≤ len.toNat → data.length = len.toNat → buf.length = len.toNat →
      page.toNat + len.toNat ≤ 256 → RoundTrip bus data buf len page := by
  intro h
  have ht := h ⟨⟨fun _ => 0, 0, .idle⟩, false, 0, []⟩ [0x11, 0x22] [0, 0] 2 7 rfl (by decide)
    (by decide) (by decide) (by decide)
  rw [roundTrip_iff_mem rfl (by decide) (by decide) (by decide)] at ht
  exact absurd ht.1 (by decide)

end RtosExample.Eeprom.At24c02
