import ParticleStore.Lattice
import ParticleStore.Population
import ParticleStore.Session.Perform
import ParticleStore.Proofs.Attempt
import ParticleStore.Proofs.Pool.Blocks
import ParticleStore.Proofs.Pool.WellFormed
import ParticleStore.Proofs.Pool.Operations
import ParticleStore.Proofs.Pool.Contents
import ParticleStore.Proofs.Pool.Store
import ParticleStore.Proofs.Pool.Refinement
import ParticleStore.Proofs.World.Update
import ParticleStore.Proofs.World.Ownership
import ParticleStore.Proofs.Action
import ParticleStore.Proofs.Particle.Operations
import ParticleStore.Proofs.Particle.Trades
import ParticleStore.Proofs.Batch
import ParticleStore.Proofs.Session.Exec
import ParticleStore.Proofs.Session.Sound
import ParticleStore.Proofs.Session.Failure
import ParticleStore.Proofs.Session.Ownership
import ParticleStore.Proofs.Plain.Particle
import ParticleStore.Proofs.Plain.Session
import ParticleStore.Proofs.World.Views
import ParticleStore.Proofs.Plain.Abstraction
import ParticleStore.Proofs.Plain.Operations
import ParticleStore.Proofs.Plain.Records
import ParticleStore.Proofs.Plain.Sessions
import ParticleStore.Proofs.Plain.Steps
import ParticleStore.Proofs.Plain.Views
import ParticleStore.Proofs.Plain.Batches
import ParticleStore.Proofs.Plain.Refinement
import ParticleStore.Proofs.Session.Partition
import ParticleStore.Proofs.Record.RoundTrip
import ParticleStore.Proofs.Particle.Streams
import ParticleStore.Proofs.World.Growth
import ParticleStore.Proofs.Particle.RoundTrip
import ParticleStore.Proofs.Migration
import ParticleStore.Proofs.Reading
import ParticleStore.Proofs.Particle.Calls
import ParticleStore.Proofs.Session.Calls
import ParticleStore.Proofs.World.Effects
import ParticleStore.Proofs.World.Authenticity
import ParticleStore.Proofs.Session.Freezing
import ParticleStore.Proofs.Particle.Stale
import ParticleStore.Proofs.Session.Stale
import ParticleStore.Proofs.Framing
import ParticleStore.Proofs.Particle.Keys
import ParticleStore.Proofs.Session.Keeping
import ParticleStore.Proofs.Session.Keys
import ParticleStore.Proofs.Session.Parts
import ParticleStore.Proofs.Session.Faults
import ParticleStore.Proofs.World.Writing
import ParticleStore.Proofs.World.Rounds
import ParticleStore.Proofs.Session.Sharing
import ParticleStore.Proofs.Particle.Writing
import ParticleStore.Proofs.Exchange
import ParticleStore.Proofs.Particle.Grammar
import ParticleStore.Proofs.Particle.Loading
import ParticleStore.Proofs.Session.Canonical
import ParticleStore.Proofs.World.Demand
import ParticleStore.Proofs.Session.Tenure
import ParticleStore.Proofs.World.Replacing
import ParticleStore.Proofs.Session.Moving
import ParticleStore.Proofs.Session.CopyingOver
import ParticleStore.Proofs.Session.Recreating
import ParticleStore.Proofs.Session.Releasing
import ParticleStore.Proofs.Record.Cursor
import ParticleStore.Proofs.Record.Fields
import ParticleStore.Proofs.Population
import ParticleStore.Proofs.Lattice
