import GsSDR.HttpSink.Delivery
import GsSDR.HttpSink.Resend
import GsSDR.HttpSink.Order
import GsSDR.HttpSink.Separate
import GsSDR.WebSocketSink.Delivery
import GsSDR.HttpSource.RoundTrip
import GsSDR.HttpSource.Validity
import GsSDR.HttpSource.Records
import GsSDR.HttpSource.Batch
import GsSDR.Doppler.Framing
import GsSDR.Doppler.Applied
import GsSDR.Doppler.Correction
import GsSDR.Doppler.Published
import GsSDR.Doppler.Stopping
import GsSDR.Doppler.SetCommands
import GsSDR.Doppler.Tracking
import GsSDR.Doppler.Directions
import GsSDR.Doppler.Accuracy
import GsSDR.Doppler.Process
import GsSDR.GainControl.Progress
import GsSDR.GainControl.Stopping
import GsSDR.GainControl.Retrigger
import GsSDR.BuildPacket.Transfer
import GsSDR.Afsk.Output
import GsSDR.HttpSink.Telemetry
import GsSDR.PackedToUnpacked
import GsSDR.BuildPacket.Unpacked
import GsSDR.BuildPacket.InBuffer
import GsSDR.Afsk.Phase
import GsSDR.Afsk.Timing
import GsSDR.Doppler.Connections
import GsSDR.HttpSource.Response
import GsSDR.WebSocketSink.Telemetry
import GsSDR.JsonText.Emitters
import GsSDR.HttpSink.Backlog
import GsSDR.HttpSink.Progress
import GsSDR.WebSocketSink.Backlog
import GsSDR.WebSocketSink.Progress
import GsSDR.Afsk.Demodulator
import GsSDR.Afsk.Progress
import GsSDR.Transmit.FileTransfer
import GsSDR.HttpSource.Iterations
import GsSDR.HttpSource.Stopping
import GsSDR.WebSocketSink.Reception
import GsSDR.FifoBuffer.Calls
import GsSDR.Transmit.Simulation
