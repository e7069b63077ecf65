import Chip8.Proofs.Blocks
import Chip8.Proofs.Faults
import Chip8.Proofs.Words

namespace Chip8

namespace Word

def highByte (w : UInt16) : UInt8 :=
  UInt8.ofNat (w.toNat / 256)

def image : List UInt16 → List UInt8
  | []        => []
  | w :: rest => highByte w :: lowByte w.toNat :: image rest

theorem length_image (words : List UInt16) : (image words).length = 2 * words.length := by
  induction words with
  | nil => rfl
  | cons w rest ih =>
    simp only [image, List.length_cons, ih]
    omega

theorem getElem?_image (words : List UInt16) (k : Nat) :
    (image words)[2 * k]? = words[k]?.map highByte ∧ (image words)[2 * k + 1]? = words[k]?.map (lowByte ·.toNat) := by
  induction words generalizing k with
  | nil => exact ⟨rfl, rfl⟩
  | cons w rest ih =>
    cases k with
    | zero => exact ⟨rfl, rfl⟩
    | succ k => exact ih k

theorem ofBytes_bytes (w : UInt16) : ofBytes (highByte w) (lowByte w.toNat) = w := by
  have := w.toNat_lt
  have low : (lowByte w.toNat).toNat = w.toNat % 256 := toNat_nn w
  apply UInt16.toNat_inj.mp
  rw [toNat_ofBytes, low, highByte, UInt8.toNat_ofNat']
  omega

end Word

structure Fields.Divide (f : Fields) (w : UInt16) : Prop where
  digits : f.family.val ≤ 15 ∧ f.x.val ≤ 15 ∧ f.y.val ≤ 15 ∧ f.n.val ≤ 15
  nn     : f.nn.toNat = 16 * f.y.val + f.n.val
  nnn    : f.nnn.val = 256 * f.x.val + f.nn.toNat
  word   : f.family.val * 4096 + f.nnn.val = w.toNat

theorem Word.fields_divide (w : UInt16) : (fields w.toNat).Divide w where
  digits := ⟨by omega, by omega, by omega, by omega⟩
  nn     := by
    rw [toNat_nn, val_y, val_n]
    omega
  nnn    := by
    rw [val_nnn, val_x, toNat_nn]
    omega
  word   := by
    rw [val_family, val_nnn]
    omega

namespace Memory

def numbers (image : List UInt8) : List Int :=
  image.map fun b => (b.toNat : Int)

theorem length_numbers (image : List UInt8) : (numbers image).length = image.length :=
  List.length_map _

theorem fetch_of_byteAt {m : Memory} {a : Int} (h : 0 ≤ a ∧ a + 1 < size) :
    Word.fetch m.bytes a = .ok (Word.ofBytes (m.byteAt a) (m.byteAt (a + 1))) := by
  obtain ⟨i, rfl⟩ := Int.eq_ofNat_of_zero_le h.left
  have high : i < size := by omega
  have low : i + 1 < size := by omega
  rw [Word.fetch, dif_pos h, byteAt_natCast m high, show ((i : Int) + 1) = (i + 1 : Nat) from rfl, byteAt_natCast m low]
  rfl

end Memory

namespace Machine

structure Loaded (m : Machine) (values : List Int) (m' : Machine) : Prop where
  size   : m'.memory.bytes.toArray.size = 4096
  image  : ∀ (i : Nat) (h : i < values.length), (m'.memory.byteAt (0x200 + i)).toNat = values[i]
  others : ∀ a : Int, a < 0x200 ∨ 0x200 + values.length ≤ a → m'.memory.byteAt a = m.memory.byteAt a
  same   : m.SameBut [.memory] m'

variable {m : Machine} {values : List Int} {image : List UInt8}

theorem bytes?_numbers (image : List UInt8) : bytes? (Memory.numbers image) = some image := by
  have bytes : (Memory.numbers image).all (fun n => 0 ≤ n && n < 256) = true := by
    simp only [Memory.numbers, List.all_map, List.all_eq_true, Function.comp_apply, Bool.and_eq_true, decide_eq_true_eq]
    intro b _
    have := b.toNat_lt
    omega
  rw [bytes?, if_pos bytes, Memory.numbers, List.map_map]
  exact congrArg some ((List.map_congr_left fun b _ => UInt8.ofNat_toNat).trans (List.map_id image))

theorem exists_numbers (bytes : ∀ n ∈ values, 0 ≤ n ∧ n ≤ 255) : ∃ image, values = Memory.numbers image := by
  induction values with
  | nil => exact ⟨[], rfl⟩
  | cons n rest ih =>
    have ⟨low, high⟩ := bytes n List.mem_cons_self
    obtain ⟨image, rfl⟩ := ih fun n' mem => bytes n' (List.mem_cons_of_mem n mem)
    refine ⟨UInt8.ofNat n.toNat :: image, congrArg (· :: _) ?_⟩
    show n = ((UInt8.ofNat n.toNat).toNat : Int)
    rw [UInt8.toNat_ofNat']
    omega

theorem bytes?_eq_none (bad : ¬∀ n ∈ values, 0 ≤ n ∧ n ≤ 255) : bytes? values = none := by
  rw [bytes?, if_neg]
  intro all
  simp only [List.all_eq_true, Bool.and_eq_true, decide_eq_true_eq] at all
  refine bad fun n mem => ?_
  have := all n mem
  omega

theorem load_eq_loadNumbers (m : Machine) (image : List UInt8) : m.load image = m.loadNumbers (Memory.numbers image) := by
  rw [loadNumbers, bytes?_numbers, Memory.length_numbers]
  split
  case isTrue  => rfl
  case isFalse large => rw [load, if_neg large]

theorem overwrite_loaded (m : Machine) (fits : image.length ≤ 3584) :
    m.Loaded (Memory.numbers image) { m with memory := m.memory.overwrite Memory.programStart image } := by
  have inside : Memory.programStart + image.length ≤ Memory.size := by
    simp only [Memory.programStart, Memory.size]
    omega
  refine ⟨Vector.size_toArray _, fun i h => ?_, fun a outside => ?_, fun p other => ?_⟩
  · have read := m.memory.byteAt_overwrite inside (Memory.length_numbers image ▸ h)
    simp only [Memory.numbers, List.getElem_map]
    exact congrArg (fun b : UInt8 => (b.toNat : Int)) read
  · exact m.memory.byteAt_overwrite_of_outside (Memory.length_numbers image ▸ outside)
  · cases p
    case memory => exact absurd List.mem_cons_self other
    all_goals rfl

theorem loadNumbers_loaded (m : Machine) (fits : values.length ≤ 3584) (bytes : ∀ n ∈ values, 0 ≤ n ∧ n ≤ 255) :
    ∃ m' notices, m.loadNumbers values = .ok (m', notices) ∧ m.Loaded values m' := by
  obtain ⟨image, rfl⟩ := exists_numbers bytes
  rw [Memory.length_numbers] at fits
  rw [← load_eq_loadNumbers]
  exact ⟨_, _, if_pos fits, m.overwrite_loaded fits⟩

theorem loadNumbers_refused (m : Machine) (bad : ¬(values.length ≤ 3584 ∧ ∀ n ∈ values, 0 ≤ n ∧ n ≤ 255)) :
    m.loadNumbers values = .error (if 3584 < values.length then .tooLarge values.length 3584 else .notBytes) := by
  by_cases fits : values.length ≤ 3584
  case neg =>
    rw [if_pos (Nat.lt_of_not_le fits)]
    exact if_neg fits
  case pos =>
    have notBytes : bytes? values = none := bytes?_eq_none fun bytes => bad ⟨fits, bytes⟩
    rw [if_neg (Nat.not_lt_of_le fits)]
    refine (if_pos fits).trans ?_
    rw [notBytes]

theorem load_refused (m : Machine) (large : ¬image.length ≤ 3584) : ∃ e, m.load image = .error e :=
  ⟨_, if_neg large⟩

theorem loadRom_refused (m : Machine) {path : FileName} {file : RomFile}
    (unreadable : ¬path.Openable ∨ ¬∃ image, file = .contents image ∧ image.length ≤ 3584) :
    ∃ e, m.loadRom path file = .error e := by
  unfold loadRom
  cases refused : path.error? with
  | some e => exact ⟨_, rfl⟩
  | none =>
    have named := FileName.error?_eq_none_iff.mp refused
    cases file with
    | contents image =>
      refine m.load_refused fun fits => ?_
      exact unreadable.elim (absurd named) fun none => none ⟨image, rfl, fits⟩
    | _ => exact ⟨_, rfl⟩

theorem Loaded.byteAt {m' : Machine} (loaded : m.Loaded (Memory.numbers image) m') {i : Nat} {b : UInt8}
    (here : image[i]? = some b) : m'.memory.byteAt (0x200 + i) = b := by
  obtain ⟨h, rfl⟩ := List.getElem?_eq_some_iff.mp here
  have number := loaded.image i (Memory.length_numbers image ▸ h)
  simp only [Memory.numbers, List.getElem_map, Int.natCast_inj] at number
  exact UInt8.toNat_inj.mp number

theorem Loaded.fetch {words : List UInt16} {m' : Machine} (loaded : m.Loaded (Memory.numbers (Word.image words)) m')
    (fits : words.length ≤ 1792) {k : Nat} (h : k < words.length) :
    Word.fetch m'.memory.bytes (0x200 + 2 * k) = .ok words[k] := by
  have ⟨high, low⟩ := Word.getElem?_image words k
  rw [List.getElem?_eq_getElem h] at high low
  have inside : 0 ≤ (0x200 + 2 * k : Int) ∧ (0x200 + 2 * k : Int) + 1 < Memory.size := by
    simp only [Memory.size]
    omega
  have first : m'.memory.byteAt (0x200 + 2 * k) = Word.highByte words[k] := loaded.byteAt high
  have second : m'.memory.byteAt (0x200 + 2 * k + 1) = Word.lowByte words[k].toNat := by
    rw [Int.add_assoc]
    exact loaded.byteAt low
  rw [Memory.fetch_of_byteAt inside, first, second, Word.ofBytes_bytes]

-- Numbers are loaded if, and only if, there is room for them and all of them are bytes. They then lie in memory from
-- `0x200` on, and nothing else has changed. Otherwise nothing has changed at all, and if there is no room, that is what is
-- reported. The same goes for the bytes of a file, if it can be read. Of a program that was loaded as words, every word
-- is fetched at its address, and has fields from which it can be put together.
theorem loading_is_undone_by_fetching (m : Machine) :
    (∀ values : List Int,
      (values.length ≤ 3584 ∧ (∀ n ∈ values, 0 ≤ n ∧ n ≤ 255) →
        ∃ m' notices, m.loadNumbers values = .ok (m', notices) ∧
          m.serve (.loadNumbers values) = m' ∧ m.Loaded values m') ∧
      (¬(values.length ≤ 3584 ∧ ∀ n ∈ values, 0 ≤ n ∧ n ≤ 255) →
        m.loadNumbers values = .error (if 3584 < values.length then .tooLarge values.length 3584 else .notBytes) ∧
          m.serve (.loadNumbers values) = m)) ∧
    (∀ (path : FileName) (file : RomFile),
      (∀ image, path.Openable → file = .contents image → image.length ≤ 3584 →
        ∃ m' notices, m.loadRom path file = .ok (m', notices) ∧
          m.serve (.loadRom path file) = m' ∧ m.Loaded (Memory.numbers image) m') ∧
      (¬path.Openable ∨ (¬∃ image, file = .contents image ∧ image.length ≤ 3584) →
        (∃ e, m.loadRom path file = .error e) ∧ m.serve (.loadRom path file) = m)) ∧
    ∀ words : List UInt16, words.length ≤ 1792 →
      ∃ m' notices, m.loadNumbers (Memory.numbers (Word.image words)) = .ok (m', notices) ∧
        ∀ (k : Nat) (h : k < words.length),
          Word.fetch m'.memory.bytes (0x200 + 2 * k) = .ok words[k] ∧ (Word.fields words[k].toNat).Divide words[k] := by
  refine ⟨fun values => ⟨?loaded, fun bad => ?refused⟩,
    fun path file => ⟨fun image named contents fits => ?read, fun unreadable => ?unread⟩, fun words fits => ?fetched⟩
  case loaded =>
    rintro ⟨fits, bytes⟩
    obtain ⟨m', notices, load, loaded⟩ := m.loadNumbers_loaded fits bytes
    exact ⟨m', notices, load, by rw [serve, load]; rfl, loaded⟩
  case refused =>
    have refused := m.loadNumbers_refused bad
    exact ⟨refused, by rw [serve, refused]; rfl⟩
  case read =>
    have loaded := m.overwrite_loaded fits
    have read := contents ▸ loadRom_contents (m := m) named fits
    exact ⟨_, _, read, by rw [serve, read]; rfl, loaded⟩
  case unread =>
    obtain ⟨e, unread⟩ := m.loadRom_refused unreadable
    exact ⟨⟨e, unread⟩, by rw [serve, unread]; rfl⟩
  case fetched =>
    have room : (Word.image words).length ≤ 3584 := by
      rw [Word.length_image]
      omega
    have loaded := m.overwrite_loaded room
    have load := (m.load_eq_loadNumbers _).symm.trans (if_pos room)
    exact ⟨_, _, load, fun k h => ⟨loaded.fetch fits h, Word.fields_divide _⟩⟩

theorem second_word_is_fetched :
    let m := powerOn .standard .clip 16 (.cycle #[]) none
    ∃ m' notices, m.loadNumbers (Memory.numbers (Word.image [0x00E0, 0xD125])) = .ok (m', notices) ∧
      Word.fetch m'.memory.bytes 0x202 = .ok 0xD125 ∧ (Word.fields 0xD125).Divide 0xD125 := by
  intro m
  obtain ⟨_, _, words⟩ := loading_is_undone_by_fetching m
  obtain ⟨m', notices, load, fetched⟩ := words [0x00E0, 0xD125] (by decide)
  exact ⟨m', notices, load, fetched 1 (by decide)⟩

end Machine
end Chip8
