import TraceDisasm.Proofs.Moves
import TraceDisasm.Proofs.Tiling

/-!
# Kept listings cover their banks

A bank keeps its last listing until it is listed again or the banks are made anew. The bytes that it shows may be out of
date, even without the tracer knowing, for memory can change behind its back. Its addresses cannot: a bank lies where it
was made, so every listing that it ever keeps covers the same range (`Tracer.Made.tiled_run`).
-/

namespace TraceDisasm

namespace Bank

/-- The listing that a bank keeps covers the addresses of the bank. -/
def Tiled (bank : Bank) : Prop :=
  ∀ rows, bank.rows = some rows → ∃ bytes, bytes.length = bank.size ∧ Walk.Covers bank.start bytes rows

variable {bank other : Bank} {rows : List Row}

theorem Tiled.congr (h : bank.Tiled) (hextent : other.extent = bank.extent) (hrows : other.rows = bank.rows) :
    other.Tiled := by
  intro rows hkept
  obtain ⟨bytes, hlength, covers⟩ := h rows (hrows ▸ hkept)
  refine ⟨bytes, ?_, ?_⟩
  · rw [hlength, size, size, start_congr hextent, (extent_eq_iff.1 hextent).2]
  · rwa [start_congr hextent]

theorem tiled_fresh (id : BankId) (stop : UInt32) : (fresh id stop).Tiled := by
  intro rows hkept
  cases hkept

theorem Tiled.invalidate (h : bank.Tiled) : bank.invalidate.Tiled := h.congr rfl rfl

theorem Tiled.invalidateAnnounced (h : bank.Tiled) : bank.invalidateAnnounced.Tiled := h.congr rfl rfl

theorem Tiled.settle (h : bank.Tiled) : bank.settle.Tiled := h.congr rfl rfl

end Bank

namespace Registry

variable {registry : Registry} {change : Bank → Bank}

theorem tiled_modify (h : ∀ bank ∈ registry.banks, bank.Tiled) (id : BankId)
    (hchange : ∀ bank ∈ registry.banks, bank.id = id → (change bank).Tiled) :
    ∀ bank ∈ (registry.modify id change).banks, bank.Tiled := by
  intro bank hmem
  obtain ⟨old, hold, rfl⟩ := List.mem_map.1 hmem
  split
  · next hid => exact hchange old hold hid
  · exact h old hold

theorem tiled_ofCartridgeEnd (cartridgeEnd : UInt32) : ∀ bank ∈ (ofCartridgeEnd cartridgeEnd).banks, bank.Tiled := by
  intro bank hmem
  rcases mem_ofCartridgeEnd_iff.1 hmem with rfl | rfl | ⟨page, -, rfl⟩ <;> exact Bank.tiled_fresh _ _

end Registry

namespace Tracer

/-- Every listing that is kept covers its bank. -/
def Tiled (s : Tracer) : Prop := ∀ bank ∈ s.registry.banks, bank.Tiled

variable {s t : Tracer}

/-- A new listing covers its bank. -/
theorem tiled_list (s : Tracer) {bank : Bank} (placed : bank.Placed) : (bank.listed (s.list bank)).Tiled := by
  intro rows hkept
  obtain rfl : s.list bank = rows := Option.some.inj hkept
  rw [s.list_eq placed]
  exact ⟨_, by rw [viewOf, List.length_map, bank.length_addresses]; rfl, (s.viewOf bank).rows_covers s.symbols s.config⟩

theorem Tiled.move (tiled : s.Tiled) (sound : s.Sound) (move : Move s t) : t.Tiled := by
  cases move with
  | idle | noted _ _ _ | subscribed _ => exact tiled
  | learned address kind previous current _ _ =>
    rcases s.registry.invalidateAt_cases address with hregistry | ⟨id, hregistry⟩
    · rw [Tiled, hregistry]
      exact tiled
    · rw [Tiled, hregistry]
      exact Registry.tiled_modify tiled id fun bank hmem _ => (tiled bank hmem).invalidate
  | forced address kind bank _ =>
    exact Registry.tiled_modify tiled bank.id fun other hmem _ => (tiled other hmem).invalidateAnnounced
  | announced => exact Registry.forall_map tiled fun _ h => h.settle
  | listed bank hget _ =>
    obtain ⟨hbank, -⟩ := sound.arranged.get?_eq_some_iff.1 hget
    refine Registry.tiled_modify tiled bank.id fun other hmem hid => ?_
    rw [sound.arranged.eq_of_id_eq hmem hbank hid]
    exact s.tiled_list (sound.arranged.placed hbank)
  | rebuilt memory => exact Registry.tiled_ofCartridgeEnd _
  | biosReplaced image memory _ =>
    exact Registry.tiled_modify tiled .bios fun bank hmem _ => (tiled bank hmem).invalidate

/-- A change of memory leaves the listings as they are. -/
theorem Tiled.perform (tiled : s.Tiled) (sound : s.Sound) (command : Command) : (s.perform command).1.Tiled := by
  by_cases h : command.mutatesMemory = true
  · cases command with
    | memory _ => exact tiled
    | _ => cases h
  · exact tiled.move sound (s.perform_move (Bool.eq_false_iff.2 h))

theorem Tiled.run (tiled : s.Tiled) (sound : s.Sound) (commands : List Command) : (s.run commands).1.Tiled := by
  induction commands generalizing s with
  | nil => exact tiled
  | cons command commands ih => exact ih (tiled.perform sound command) (sound.perform command)

theorem Made.tiled (made : Made s) : s.Tiled := by
  obtain ⟨config, rfl⟩ := made.exists_config
  exact Registry.tiled_ofCartridgeEnd 0

/-- **Every listing that is kept covers its bank**, whatever happens to memory meanwhile. -/
theorem Made.tiled_run (made : Made s) (commands : List Command) : (s.run commands).1.Tiled :=
  made.tiled.run (made.sound_run []) commands

end Tracer

end TraceDisasm
