import K64.InitialStack

/-! # The arguments of a program

What a program decodes from its initial stack is the words of the path and the arguments that it was
started with. -/
namespace ElfLoader

open Attempts VirtualMemory

variable {w : Access} {sp argvBase envBase randomUser : UInt64} {words : List (List UInt8)}
  {entries : UInt64 → UInt64 → List (UInt64 × UInt64)}

theorem StackLaid.disjoint (h : StackLaid w sp words entries argvBase envBase randomUser) :
    ((sp.toNat, 8 * (words.length + 38)) :: (randomUser.toNat, 16) ::
      (stringPieces (stringAddrs envBase elfEnv) elfEnv ++
        stringPieces (stringAddrs argvBase words) words)).Pairwise Before := by
  have htables := h.tables_end
  have hrandom := h.random_end
  have henv := h.env_end
  have hargv := h.argv_end
  obtain ⟨henvPairs, henvIn, -⟩ := stringPieces_between elfEnv envBase (by omega)
  obtain ⟨hargvPairs, hargvIn, -⟩ := stringPieces_between words argvBase h.argv_end
  have habove : ∀ p ∈ stringPieces (stringAddrs envBase elfEnv) elfEnv ++
      stringPieces (stringAddrs argvBase words) words, envBase.toNat ≤ p.1 := by
    intro p hp
    rcases List.mem_append.mp hp with hp | hp
    · exact (henvIn p hp).1
    · have := (hargvIn p hp).1
      omega
  refine List.pairwise_cons.mpr ⟨?_, List.pairwise_cons.mpr ⟨fun p hp => ?_,
    List.pairwise_append.mpr ⟨henvPairs, hargvPairs, fun p hp q hq => ?_⟩⟩⟩
  · refine List.forall_mem_cons.mpr ⟨htables, fun p hp => ?_⟩
    have := habove p hp
    rw [Before]
    dsimp only
    omega
  · have := habove p hp
    rw [Before]
    dsimp only
    omega
  · have hp := (henvIn p hp).2
    have hq := (hargvIn q hq).1
    rw [Before]
    omega

end ElfLoader
