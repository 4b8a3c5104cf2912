import RideProof.Main
import RideProof.Proofs.LiveFinish
import RideProof.Proofs.LifeCycle
import RideProof.Proofs.Recording
import RideProof.Proofs.TorusShift
import RideProof.Proofs.Moves
import RideProof.Proofs.CheapestRoute
import RideProof.Proofs.ClaimedLength
import RideProof.Proofs.Respelling
import RideProof.Proofs.Rewinding
import RideProof.Proofs.Layouts
import RideProof.Proofs.Lines
import RideProof.Proofs.LineFaults
import RideProof.Proofs.Courses
import RideProof.Proofs.WireVerdict
import RideProof.Proofs.MachineTick
import RideProof.Proofs.Advancing
import RideProof.Proofs.FullLog
import RideProof.Proofs.Batches
import RideProof.Proofs.Airborne
import RideProof.Proofs.Blending
import RideProof.Proofs.ExactSampling
import RideProof.Proofs.ContinuousGround
import RideProof.Proofs.ContactNormal
import RideProof.Proofs.GroundGrid
import RideProof.Proofs.Kicks
import RideProof.Proofs.CoolDown
import RideProof.Proofs.Braking
import RideProof.Proofs.Cutting
import RideProof.Proofs.Difficulty
import RideProof.Proofs.FirstCourse
import RideProof.Proofs.WrittenBack
import RideProof.Proofs.StoredText
import RideProof.Proofs.LineByLine
import RideProof.Proofs.Nearness
import RideProof.Proofs.RootLoops
import RideProof.Proofs.ReadBack
