import WorldShuffle.Main
import WorldShuffle.Numbering
import WorldShuffle.World.Builder
import WorldShuffle.Proofs.Demands
import WorldShuffle.Proofs.LegalPlay
import WorldShuffle.Proofs.Winnable
import WorldShuffle.Proofs.Compilation
import WorldShuffle.Proofs.DoorShuffles
import WorldShuffle.Proofs.Resuming
import WorldShuffle.Proofs.Alternatives
import WorldShuffle.Proofs.Layers
import WorldShuffle.Proofs.Statements
import WorldShuffle.Proofs.CompiledLayers
import WorldShuffle.Proofs.Adjacency
import WorldShuffle.Proofs.Components
import WorldShuffle.Proofs.Rejoining
import WorldShuffle.Proofs.LastResort
import WorldShuffle.Proofs.Unlocking
import WorldShuffle.Proofs.Reproducing
import WorldShuffle.Proofs.Reloading
import WorldShuffle.Proofs.WiderGates
import WorldShuffle.Proofs.Lexing
import WorldShuffle.Proofs.Splitting
import WorldShuffle.Proofs.TokenTexts
import WorldShuffle.Proofs.Expansion
import WorldShuffle.Proofs.Printing
import WorldShuffle.Proofs.Easing
import WorldShuffle.Proofs.Skips
import WorldShuffle.Proofs.Nearest
import WorldShuffle.Proofs.Reindexing
import WorldShuffle.Proofs.DoorStates
import WorldShuffle.Proofs.Upgrading
import WorldShuffle.Proofs.Overflows
import WorldShuffle.Proofs.RuleEdges
import WorldShuffle.Proofs.Operands
import WorldShuffle.Proofs.ConsistentWorlds
import WorldShuffle.Proofs.FlagFields
import WorldShuffle.Proofs.Verdicts
import WorldShuffle.Proofs.SpoilerNotes
import WorldShuffle.Proofs.Undoing
import WorldShuffle.Proofs.Connectivity
import WorldShuffle.Proofs.DepthFirst
import WorldShuffle.Proofs.Acquisitions
import WorldShuffle.Proofs.Portions
import WorldShuffle.Proofs.Reprinting
import WorldShuffle.Proofs.Penalties
import WorldShuffle.Proofs.Sampling
import WorldShuffle.Proofs.Labels
