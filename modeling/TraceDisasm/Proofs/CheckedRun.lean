import TraceDisasm.Proofs.CheckedListing
import TraceDisasm.Proofs.Partition
import TraceDisasm.Proofs.RowSearch

/-!
# Running with every step checked

Every command is carried out once more, by steps that have no result where an index or a slice would be out of bounds, or a
sum or a difference out of its range: for the cells of memory and of the classification, for the banks in their list, for
the positions and addresses of a listing, and for the ends of its rows. Only lengths, and the numbers of subscriptions, are
counted without a bound.

In no run is a step left without a result, and the checked run leads to the same states and gives the same answers
(`Tracer.Made.run_checked`). Two facts carry this through all changes of memory. A bank lies in one part of memory
(`Bank.Placed`), whatever has been loaded since it was made. And the listing that it keeps covers its addresses
(`Bank.Tiled`), whatever bytes the listing shows.
-/

namespace TraceDisasm

namespace Checked

/-! ## Cells -/

variable {α : Type} {n : Nat}

/-- A vector with another item in one of its cells, if there is this cell. -/
def put (cells : Vector α n) (i : Nat) (item : α) : Option (Vector α n) :=
  if h : i < n then some (cells.set i item h) else none

/-- A vector with a list in its first cells, if it has as many. -/
def putFront (cells : Vector α n) (items : List α) : Option (Vector α n) :=
  if items.length ≤ n then some (cells.mapIdx fun i cell => items[i]?.getD cell) else none

/-- A vector with one item in all cells from a place on, if the place is not past its end. -/
def putFrom (cells : Vector α n) (first : Nat) (item : α) : Option (Vector α n) :=
  if first ≤ n then some (cells.mapIdx fun i cell => if i < first then cell else item) else none

/-! ## Memory -/

/-- The byte that the CPU reads. -/
def read (memory : Memory) (address : UInt32) : Option UInt8 :=
  let a := address.toNat % Address.spaceSize
  if a < 0x1000 then memory.bios[a]?
  else if a < 0x2000 then do
    let i ← difference a 0x1000
    memory.ram[i]?
  else if a < 0x2100 then some 0
  else memory.cartridge[a]?

/-- What memory is after the CPU writes a byte. -/
def write (memory : Memory) (address : UInt32) (value : UInt8) : Option Memory :=
  let a := address.toNat % Address.spaceSize
  if 0x1000 ≤ a ∧ a < 0x2000 then do
    let i ← difference a 0x1000
    let ram ← put memory.ram i value
    return { memory with ram := ram }
  else some memory

/-- Replaces the BIOS: wipes it, and copies the image to its front. -/
def loadBios (memory : Memory) (image : List UInt8) : Option (Except Error Memory) :=
  if Memory.biosSize < image.length then some (.error (.biosTooLarge image.length))
  else do
    let bios ← putFront (.replicate 0x1000 0) image
    return .ok { memory with bios := bios }

/-- Writes bytes to consecutive addresses. -/
def place (cells : Vector UInt8 Address.spaceSize) (address : Nat) :
    List UInt8 → Option (Vector UInt8 Address.spaceSize)
  | [] => some cells
  | byte :: bytes => do
    let cells ← put cells (address % Address.spaceSize) byte
    place cells (address + 1) bytes

/-- Inserts a cartridge. -/
def loadCartridge (memory : Memory) (image : List UInt8) : Option (Except Error Memory) :=
  if image.isEmpty then some (.error .emptyCartridge)
  else do
    let start := Memory.imageStart image
    let cartridge ← place (.replicate Address.spaceSize 0) start image
    return .ok
      { memory with
        cartridge := cartridge
        cartridgeEnd := UInt32.ofNat (min (start + image.length) Address.spaceSize) }

/-- What follows from a command on memory that may fail. -/
def settledMemory (memory : Memory) : Except Error Memory → Memory × MemoryReply
  | .ok memory => (memory, .done)
  | .error error => (memory, .failed error)

/-- Carries out a command on memory. -/
def performMemory (memory : Memory) : MemoryCommand → Option (Memory × MemoryReply)
  | .read address => do
    let byte ← read memory address
    return (memory, .byte byte)
  | .write address value => do
    let memory ← write memory address value
    let byte ← read memory address
    return (memory, .byte byte)
  | .replaceBios image => do
    let result ← loadBios memory image
    return settledMemory memory result
  | .insertCartridge image => do
    let result ← loadCartridge memory image
    return settledMemory memory result
  | .eject => some (memory.eject, .done)

theorem read_eq (memory : Memory) (address : UInt32) : read memory address = some (memory.read address) := by
  have inSpace : address.toNat % Address.spaceSize < Address.spaceSize := Nat.mod_lt _ Address.spaceSize_pos
  simp only [read, Memory.read]
  split
  · next bios => exact Vector.getElem?_eq_getElem bios
  · next bios =>
    split
    · next ram =>
      have cell : address.toNat % Address.spaceSize - 0x1000 < 0x1000 := by omega
      rw [difference, if_pos (Nat.le_of_not_lt bios), Option.bind_eq_bind, Option.bind_some,
        Vector.getElem?_eq_getElem cell]
      rfl
    · split
      · rfl
      · exact Vector.getElem?_eq_getElem inSpace

theorem write_eq (memory : Memory) (address : UInt32) (value : UInt8) :
    write memory address value = some (memory.write address value) := by
  simp only [write, Memory.write]
  split
  · next ram =>
    rw [difference, if_pos ram.1, Option.bind_eq_bind, Option.bind_some, put, dif_pos (by omega)]
    rfl
  · rfl

theorem loadBios_eq (memory : Memory) (image : List UInt8) :
    loadBios memory image = some (memory.replaceBios image) := by
  rw [loadBios, Memory.replaceBios]
  by_cases h : image.length ≤ Memory.biosSize
  · have hfront : image.length ≤ 0x1000 := h
    rw [if_neg (Nat.not_lt.2 h), dif_pos h, putFront, if_pos hfront, Option.bind_eq_bind, Option.bind_some]
    have hbios : (Vector.replicate 0x1000 0).mapIdx (fun i cell => image[i]?.getD cell) =
        ⟨(image ++ List.replicate (Memory.biosSize - image.length) 0).toArray, by
          simp only [List.size_toArray, List.length_append, List.length_replicate, Memory.biosSize]; omega⟩ := by
      refine Vector.ext fun i hi => ?_
      by_cases himage : i < image.length
      · simp [himage]
      · simp [himage, List.getElem_append_right (Nat.le_of_not_lt himage)]
    rw [hbios]
    rfl
  · rw [if_pos (Nat.lt_of_not_le h), dif_neg h]

theorem place_eq (cells : Vector UInt8 Address.spaceSize) (address : Nat) (image : List UInt8) :
    place cells address image = some (Memory.place cells address image) := by
  induction image generalizing cells address with
  | nil => rfl
  | cons byte image ih =>
    rw [place, put, dif_pos (Nat.mod_lt _ Address.spaceSize_pos), Option.bind_eq_bind, Option.bind_some, ih]
    rfl

theorem loadCartridge_eq (memory : Memory) (image : List UInt8) :
    loadCartridge memory image = some (memory.insertCartridge image) := by
  rw [loadCartridge, Memory.insertCartridge]
  split
  · rfl
  · simp only [place_eq]
    rfl

theorem performMemory_eq (memory : Memory) (command : MemoryCommand) :
    performMemory memory command = some (memory.perform command) := by
  cases command with
  | read address =>
    rw [performMemory, read_eq]
    rfl
  | write address value =>
    rw [performMemory, write_eq, Option.bind_eq_bind, Option.bind_some, read_eq]
    rfl
  | replaceBios image =>
    rw [performMemory, loadBios_eq, Memory.perform]
    cases memory.replaceBios image <;> rfl
  | insertCartridge image =>
    rw [performMemory, loadCartridge_eq, Memory.perform]
    cases memory.insertCartridge image <;> rfl
  | eject => rfl

/-! ## Classification -/

/-- Carries out an effect. -/
def store (classification : Classification) (address : UInt32) : Classification.Effect → Option Classification
  | .changed _ current => (put classification.words address.toNat current).map .mk
  | _ => some classification

/-- Forgets what is known at and above an address. -/
def clearFrom (classification : Classification) (address : UInt32) : Option Classification :=
  (putFrom classification.words (min address.toNat Address.spaceSize) .none).map .mk

theorem store_eq (classification : Classification) {address : UInt32} (h : address.toNat < Address.spaceSize)
    (effect : Classification.Effect) :
    store classification address effect = some (classification.apply address effect) := by
  cases effect with
  | changed previous current =>
    rw [store, put, dif_pos h, Classification.apply]
    refine congrArg some (congrArg Classification.mk (Vector.ext fun i hi => ?_))
    rw [Vector.getElem_set, Vector.getElem_setIfInBounds]
  | _ => rfl

theorem clearFrom_eq (classification : Classification) (address : UInt32) :
    clearFrom classification address = some (classification.clearFrom address) := by
  rw [clearFrom, putFrom, if_pos (Nat.min_le_right _ _), Classification.clearFrom]
  refine congrArg some (congrArg Classification.mk (Vector.ext fun i hi => ?_))
  simp only [Vector.getElem_mapIdx, Nat.lt_min, hi, and_true]

/-! ## Banks -/

/-- The bank with an identifier. It is looked up at the place that the identifier has in the display order. -/
def bankAt (registry : Registry) (id : BankId) : Option (Option Bank) :=
  if id.rank < registry.banks.length then registry.banks[id.rank]?.map some else some none

/-- Changes the bank with an identifier. -/
def changeBank (registry : Registry) (id : BankId) (change : Bank → Bank) : Option Registry :=
  if id.rank < registry.banks.length then
    registry.banks[id.rank]?.map fun bank => ⟨registry.banks.set id.rank (change bank)⟩
  else some registry

/-- The bank that an address lies in. -/
def covering (registry : Registry) (address : UInt32) : Option (Option Bank) :=
  match BankId.ofAddress? address with
  | none => some none
  | some id => do
    let bank ← bankAt registry id
    return bank.filter fun bank => bank.contains address

/-- Invalidates the bank that an address lies in. -/
def invalidateAt (registry : Registry) (address : UInt32) : Option Registry := do
  match ← covering registry address with
  | none => return registry
  | some bank => changeBank registry bank.id Bank.invalidate

theorem lt_of_sum_pageEnd {address next : UInt32} (h : sum (Address.pageEnd address) 1 = some next) :
    address.toNat < next.toNat := by
  have hend := Address.toNat_pageEnd address
  have hone : UInt32.toNat 1 = 1 := rfl
  rw [sum] at h
  split at h
  · obtain rfl := Option.some.inj h
    rw [UInt32.toNat_add]
    omega
  · cases h

/-- In the physical space, the address behind a page is a sum without a carry. -/
theorem sum_pageEnd {address : UInt32} (h : address < Address.spaceEnd) :
    sum (Address.pageEnd address) 1 = some (Address.pageEnd address + 1) := by
  have hspace : address.toNat < 0x200000 := UInt32.lt_iff_toNat_lt.1 h
  have hend := Address.toNat_pageEnd address
  have hone : UInt32.toNat 1 = 1 := rfl
  rw [sum, if_pos (by omega)]

/-- The banks of a cartridge that ends before `stop`, from an address on. What is behind a page is the sum of its last
address and one. -/
def romBanks (stop address : UInt32) : Option (List Bank) :=
  if address < stop then
    match _ : sum (Address.pageEnd address) 1 with
    | none => none
    | some next => (romBanks stop next).map (.fresh (.rom (address >>> 15).toUInt8) (min next stop) :: ·)
  else some []
termination_by stop.toNat - address.toNat
decreasing_by
  have hlt := lt_of_sum_pageEnd ‹_›
  have hstop := UInt32.lt_iff_toNat_lt.1 ‹address < stop›
  omega

/-- The banks while a cartridge fills the addresses before `cartridgeEnd`. -/
def newBanks (cartridgeEnd : UInt32) : Option Registry := do
  let roms ← romBanks (min cartridgeEnd Address.spaceEnd) Address.cartridgeStart
  return ⟨.fresh .bios Address.ramStart :: .fresh .ram Address.registersStart :: roms⟩

theorem bankAt_eq {registry : Registry} (arranged : registry.Arranged) (id : BankId) :
    bankAt registry id = some (registry.get? id) := by
  rw [bankAt, arranged.get?_eq_getElem?]
  split
  · next h => rw [List.getElem?_eq_getElem h, Option.map_some]
  · next h => rw [List.getElem?_eq_none (Nat.le_of_not_lt h)]

theorem changeBank_eq {registry : Registry} (arranged : registry.Arranged) (id : BankId) (change : Bank → Bank) :
    changeBank registry id change = some (registry.modify id change) := by
  rw [changeBank]
  split
  · next h =>
    rw [List.getElem?_eq_getElem h, Option.map_some, arranged.modify_eq_set (List.getElem?_eq_getElem h)]
  · next h => rw [arranged.modify_eq_self (List.getElem?_eq_none (Nat.le_of_not_lt h))]

theorem covering_eq {registry : Registry} (arranged : registry.Arranged) (address : UInt32) :
    covering registry address = some (registry.covering? address) := by
  rw [covering, Registry.covering?]
  cases BankId.ofAddress? address with
  | none => rfl
  | some id =>
    simp only [bankAt_eq arranged id]
    rfl

theorem invalidateAt_eq {registry : Registry} (arranged : registry.Arranged) (address : UInt32) :
    invalidateAt registry address = some (registry.invalidateAt address) := by
  rw [invalidateAt, covering_eq arranged, Registry.invalidateAt, Registry.bankFor?]
  cases registry.covering? address with
  | none => rfl
  | some bank => exact changeBank_eq arranged bank.id Bank.invalidate

theorem romBanks_eq {stop : UInt32} (hstop : stop ≤ Address.spaceEnd) (address : UInt32) :
    romBanks stop address = some (Registry.romBanks stop hstop address) := by
  fun_induction Registry.romBanks stop hstop address with
  | case1 address hlt next ih =>
    have hsum := sum_pageEnd (UInt32.lt_of_lt_of_le hlt hstop)
    rw [romBanks, if_pos hlt]
    split
    · next hnone => cases hsum.symm.trans hnone
    · next found hfound =>
      obtain rfl := Option.some.inj (hsum.symm.trans hfound)
      rw [ih]
      rfl
  | case2 address hend => rw [romBanks, if_neg hend]

theorem newBanks_eq (cartridgeEnd : UInt32) : newBanks cartridgeEnd = some (.ofCartridgeEnd cartridgeEnd) := by
  rw [newBanks, romBanks_eq (Registry.min_le_spaceEnd cartridgeEnd)]
  rfl

/-! ## Commands -/

/-- Takes note of an access by the CPU. -/
def observe (s : Tracer) (address : UInt32) (kind : Access) : Option Tracer :=
  if Address.spaceEnd ≤ address then some s
  else
    match s.classification.accessEffect address kind with
    | .ignored => some s
    | .unchanged => some { s with symbols := Tracer.label s.symbols address kind }
    | .changed previous current => do
      let classification ← store s.classification address (.changed previous current)
      let registry ← invalidateAt s.registry address
      return { s with
        classification := classification
        symbols := Tracer.label s.symbols address kind
        registry := registry }

/-- Forces a word onto an address. -/
def forced (s : Tracer) (address : UInt32) (kind : Access) : Option (Tracer × Answer) := do
  match ← covering s.registry address with
  | none => return (s, .quiet (.found false))
  | some bank =>
    let classification ← store s.classification address (s.classification.forceEffect address kind)
    let registry ← changeBank s.registry bank.id Bank.invalidateAnnounced
    return (
      { s with
        classification := classification
        symbols := Tracer.label s.symbols address kind
        registry := registry },
      ⟨.found true, (s.subscriptions.publish bank.summary).map .notified⟩)

/-- Ends a subscription. It is removed at its place in the list. -/
def unsubscribe (s : Tracer) (number : Nat) : Option (Tracer × Answer) :=
  match s.subscriptions.live.findIdx? fun subscription => subscription.number == number with
  | none => some (s, .quiet (.found false))
  | some i =>
    if i < s.subscriptions.live.length then
      some ({ s with subscriptions.live := s.subscriptions.live.eraseIdx i }, .quiet (.found true))
    else none

/-- A new listing of a bank. -/
def newListing (s : Tracer) (bank : Bank) : Option (List Row) := do
  let bytes ← s.memory.slice? bank.start bank.stop
  let trace ← s.classification.slice? bank.start bank.stop
  list s.symbols s.config ⟨bank.start, bytes, trace⟩

/-- The listing of a bank. -/
def render (s : Tracer) (id : BankId) : Option (Except Error (Tracer × List Row)) := do
  match ← bankAt s.registry id with
  | none => return .error (.unknownBank id.text)
  | some bank =>
    match bank.current? with
    | some rows => return .ok (s, rows)
    | none =>
      let rows ← newListing s bank
      let registry ← changeBank s.registry id (·.listed rows)
      return .ok ({ s with registry := registry }, rows)

/-- The listing of a bank with a written identifier. -/
def renderNamed (s : Tracer) (name : String) : Option (Except Error (Tracer × List Row)) :=
  match BankId.ofText name with
  | .error error => some (.error error)
  | .ok id => render s id

/-- Whether a row covers an address. Its end is a sum. -/
def covers (row : Row) (address : UInt32) : Option Bool := do
  let stop ← sum row.address (UInt32.ofNat row.length)
  return row.address ≤ address && address < stop

/-- The position of the row that covers an address. -/
def rowIndex (s : Tracer) (id : BankId) (address : UInt32) : Option (Except Error (Tracer × Option Nat)) := do
  match ← render s id with
  | .error error => return .error error
  | .ok (t, rows) =>
    let answers ← rows.mapM fun row => covers row address
    return .ok (t, answers.findIdx? fun answer => answer)

/-- The bank and the row that hold the instruction at a program counter. -/
def rowIndexAtPc (s : Tracer) (pc : UInt16) (codeBank : UInt8) :
    Option (Except Error (Tracer × Option (BankId × Nat))) := do
  let address := Address.physical pc codeBank
  match ← covering s.registry address with
  | none => return .ok (s, none)
  | some bank =>
    let result ← rowIndex s bank.id address
    return result.map fun (t, index) => (t, index.map ((bank.id, ·)))

/-- Makes the banks of the cartridge that is in memory. -/
def reset (s : Tracer) : Option Tracer := do
  let classification ← clearFrom s.classification Address.ramStart
  let registry ← newBanks s.memory.cartridgeEnd
  return { s with
    classification := classification
    symbols := s.symbols.discardFrom Address.ramStart
    registry := registry }

/-- Inserts a cartridge. -/
def insertCartridge (s : Tracer) (image : List UInt8) : Option (Except Error Tracer) := do
  match ← loadCartridge s.memory image with
  | .error error => return .error error
  | .ok memory =>
    let t ← reset { s with memory := memory }
    return .ok t

/-- Replaces the BIOS. -/
def replaceBios (s : Tracer) (image : List UInt8) : Option (Except Error Tracer) := do
  match ← loadBios s.memory image with
  | .error error => return .error error
  | .ok memory =>
    let registry ← changeBank s.registry .bios Bank.invalidate
    return .ok { s with memory := memory, registry := registry }

/-- Carries out a command. An update and a new subscription take no step that could fail. -/
def perform (s : Tracer) : Command → Option (Tracer × Answer)
  | .observe address kind _ => do
    let t ← observe s address kind
    return (t, .quiet .done)
  | .force address kind => forced s address kind
  | .override address as => forced s address as.access
  | .update => some (s.perform .update)
  | .render bank => do
    let result ← render s bank
    return s.settled result .listing
  | .renderNamed name => do
    let result ← renderNamed s name
    return s.settled result .listing
  | .rowIndex bank address => do
    let result ← rowIndex s bank address
    return s.settled result .row
  | .rowIndexAtPc pc codeBank => do
    let result ← rowIndexAtPc s pc codeBank
    return s.settled result .place
  | .subscribe bank => some (s.perform (.subscribe bank))
  | .unsubscribe number => unsubscribe s number
  | .reset => do
    let t ← reset s
    return (t, .quiet .done)
  | .insertCartridge image => do
    let result ← insertCartridge s image
    return s.settled (result.map ((·, ()))) fun _ => .done
  | .replaceBios image => do
    let result ← replaceBios s image
    return s.settled (result.map ((·, ()))) fun _ => .done
  | .eject => do
    let t ← reset { s with memory := s.memory.eject }
    return (t, .quiet .done)
  | .memory command => do
    let (memory, reply) ← performMemory s.memory command
    return ({ s with memory := memory }, .quiet (.memory reply))

/-- Carries out commands in order. -/
def run (s : Tracer) : List Command → Option (Tracer × List Answer)
  | [] => some (s, [])
  | command :: commands => do
    let (next, answer) ← perform s command
    let (final, answers) ← run next commands
    return (final, answer :: answers)

variable {s t : Tracer}

theorem observe_eq (arranged : s.registry.Arranged) (address : UInt32) (kind : Access) (value : UInt8) :
    observe s address kind = some (s.observe address kind value) := by
  rw [observe, Tracer.observe]
  split
  · rfl
  · next hspace =>
    have hbound : address.toNat < Address.spaceSize := UInt32.lt_iff_toNat_lt.1 (UInt32.not_le.1 hspace)
    cases s.classification.accessEffect address kind with
    | ignored | unchanged => rfl
    | changed previous current =>
      simp only [store_eq _ hbound, invalidateAt_eq arranged]
      rfl

theorem forced_eq (arranged : s.registry.Arranged) (address : UInt32) (kind : Access) :
    forced s address kind = some (s.forced address kind) := by
  rw [forced, covering_eq arranged, Tracer.forced, Tracer.force]
  rcases hcovering : s.registry.covering? address with _ | bank
  · rfl
  · simp only [Option.bind_eq_bind, Option.bind_some, store_eq _ (arranged.lt_spaceSize hcovering),
      changeBank_eq arranged]
    rfl

theorem unsubscribe_eq (s : Tracer) (number : Nat) :
    unsubscribe s number = some (s.perform (.unsubscribe number)) := by
  rw [unsubscribe, Tracer.perform, Tracer.unsubscribe, Subscriptions.isLive, Subscriptions.unsubscribe,
    List.eraseP_eq_eraseIdx, ← List.findIdx?_isSome]
  cases hplace : s.subscriptions.live.findIdx? fun subscription => subscription.number == number with
  | none => rfl
  | some i =>
    have hlt : i < s.subscriptions.live.length := (List.findIdx?_eq_some_iff_getElem.1 hplace).1
    simp only [if_pos hlt]
    rfl

theorem newListing_eq {bank : Bank} (placed : bank.Placed) : newListing s bank = some (s.list bank) := by
  have hle := placed.start_le
  have hspace := placed.stop_le
  have hlength : (s.viewOf bank).bytes.length = bank.size := by simp [Tracer.viewOf]
  have bounded : (s.viewOf bank).Bounded := by
    rw [Address.spaceSize] at hspace
    rw [View.Bounded, hlength, Bank.size]
    change bank.start.toNat + _ < _
    omega
  rw [newListing, s.memory.slice?_eq placed, s.classification.slice?_eq placed, s.list_eq placed]
  exact list_eq bounded s.symbols s.config

theorem render_eq (arranged : s.registry.Arranged) (id : BankId) : render s id = some (s.render id) := by
  rw [render, bankAt_eq arranged, Tracer.render]
  rcases hget : s.registry.get? id with _ | bank
  · rfl
  · have placed := arranged.placed (arranged.get?_eq_some_iff.1 hget).1
    simp only [Option.bind_eq_bind, Option.bind_some, newListing_eq placed, changeBank_eq arranged]
    cases bank.current? <;> rfl

/-- The ends of all rows of a rendering are sums. -/
theorem covers_eq {start : UInt32} {bytes : List UInt8} {rows : List Row} (hcovers : Walk.Covers start bytes rows)
    (bound : start.toNat + bytes.length < 2 ^ 32) (address : UInt32) :
    ∀ row ∈ rows, covers row address = some (row.contains address) := by
  intro row hrow
  have hstop := hcovers.stop_toNat bound row hrow
  have hlt := row.stop.toNat_lt
  rw [covers, sum, UInt32.toNat_ofNat', if_pos (by omega)]
  rfl

theorem mapM_eq_some {β γ : Type} {f : β → Option γ} {g : β → γ} {items : List β}
    (h : ∀ item ∈ items, f item = some (g item)) : items.mapM f = some (items.map g) := by
  induction items with
  | nil => rfl
  | cons item items ih =>
    obtain ⟨hitem, hitems⟩ := List.forall_mem_cons.1 h
    rw [List.mapM_cons, hitem, ih hitems]
    rfl

theorem rowIndex_eq (sound : s.Sound) (tiled : s.Tiled) (id : BankId) (address : UInt32) :
    rowIndex s id address = some (s.rowIndex id address) := by
  rw [rowIndex, render_eq sound.arranged, Tracer.rowIndex]
  rcases hrender : s.render id with error | ⟨t, rows⟩
  · rfl
  · obtain ⟨bank, -, -, bytes, bound, -, hcovers⟩ := Tracer.render_covers sound tiled hrender
    simp only [Option.bind_eq_bind, Option.bind_some, mapM_eq_some (covers_eq hcovers bound address)]
    rw [List.findIdx?_map, Except.map, hcovers.indexOf?_eq_findIdx? bound]
    rfl

theorem rowIndexAtPc_eq (sound : s.Sound) (tiled : s.Tiled) (pc : UInt16) (codeBank : UInt8) :
    rowIndexAtPc s pc codeBank = some (s.rowIndexAtPc pc codeBank) := by
  rw [rowIndexAtPc, covering_eq sound.arranged, Tracer.rowIndexAtPc, Tracer.bankFor?, Registry.bankFor?]
  rcases s.registry.covering? (Address.physical pc codeBank) with _ | bank
  · rfl
  · simp only [Option.bind_eq_bind, Option.bind_some, rowIndex_eq sound tiled]
    rfl

theorem reset_eq (s : Tracer) : reset s = some s.reset := by
  rw [reset, clearFrom_eq, newBanks_eq]
  rfl

theorem insertCartridge_eq (s : Tracer) (image : List UInt8) :
    insertCartridge s image = some (s.insertCartridge image) := by
  rw [insertCartridge, loadCartridge_eq, Tracer.insertCartridge]
  cases s.memory.insertCartridge image with
  | error error => rfl
  | ok memory =>
    simp only [Option.bind_eq_bind, Option.bind_some, reset_eq]
    rfl

theorem replaceBios_eq (arranged : s.registry.Arranged) (image : List UInt8) :
    replaceBios s image = some (s.replaceBios image) := by
  rw [replaceBios, loadBios_eq, Tracer.replaceBios]
  cases s.memory.replaceBios image with
  | error error => rfl
  | ok memory =>
    simp only [Option.bind_eq_bind, Option.bind_some, changeBank_eq arranged]
    rfl

/-- **No step of a command leaves its range**, in a state that is sound and keeps covering listings. -/
theorem perform_eq (sound : s.Sound) (tiled : s.Tiled) (command : Command) :
    perform s command = some (s.perform command) := by
  cases command with
  | observe address kind value =>
    rw [perform, observe_eq sound.arranged address kind value]
    rfl
  | force address kind => exact forced_eq sound.arranged address kind
  | override address as => exact forced_eq sound.arranged address as.access
  | update | subscribe _ => rfl
  | render id =>
    rw [perform, render_eq sound.arranged]
    rfl
  | renderNamed name =>
    rw [perform, renderNamed, Tracer.perform, Tracer.renderNamed]
    cases BankId.ofText name with
    | error error => rfl
    | ok id =>
      simp only [render_eq sound.arranged]
      rfl
  | rowIndex id address =>
    rw [perform, rowIndex_eq sound tiled]
    rfl
  | rowIndexAtPc pc codeBank =>
    rw [perform, rowIndexAtPc_eq sound tiled]
    rfl
  | unsubscribe number => exact unsubscribe_eq s number
  | reset =>
    rw [perform, reset_eq]
    rfl
  | insertCartridge image =>
    rw [perform, insertCartridge_eq]
    rfl
  | replaceBios image =>
    rw [perform, replaceBios_eq sound.arranged]
    rfl
  | eject =>
    rw [perform, reset_eq]
    rfl
  | memory command =>
    rw [perform, performMemory_eq]
    rfl

theorem run_eq (sound : s.Sound) (tiled : s.Tiled) (commands : List Command) :
    run s commands = some (s.run commands) := by
  induction commands generalizing s with
  | nil => rfl
  | cons command commands ih =>
    have hnext := ih (sound.perform command) (tiled.perform sound command)
    rw [run, perform_eq sound tiled, Option.bind_eq_bind, Option.bind_some]
    simp only [hnext]
    rfl

end Checked

namespace Tracer

/-- **No run leaves a range.** Whatever the commands are, and whatever they do to memory, every index and every slice is in
bounds, no position is past the end of its view, and no checked sum or difference leaves its range: the checked run has a
result, and it is that of the run. -/
theorem Made.run_checked {start : Tracer} (made : Made start) (commands : List Command) :
    Checked.run start commands = some (start.run commands) :=
  Checked.run_eq (made.sound_run []) made.tiled commands

/-- Accesses outside the space and to a bank that there cannot be, while memory is changed behind the back of the tracer: the
bank of the cartridge is listed when another image lies in memory, and looked up when none does. -/
def exchanged : List Command :=
  [.insertCartridge [0x50, 0x4D, 0xE4, 0x80], .memory (.insertCartridge [0x01]),
    .observe 0xFFFFFFFF (.ofFlags [.instruction, .branchTarget, .read]) 0, .override 0x2102 .code, .render (.rom 0),
    .memory .eject, .rowIndexAtPc 0x2102 0, .rowIndex (.rom 255) 0xFFFFFFFF, .memory (.write 0xFFFFFFFF 1)]

theorem run_checked_exchanged : Checked.run new exchanged = some (new.run exchanged) :=
  Made.new.run_checked exchanged

end Tracer

end TraceDisasm
